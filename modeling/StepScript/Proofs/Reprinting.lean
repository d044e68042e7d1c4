import StepScript.Proofs.DefinitionGrammar
import StepScript.Script.Printer

/-!
Definitions survive printing. All that has been read from a line is trimmed and has no line break,
and the parts of an action are cut apart at the same places when it is printed. A printed action is
no marker, since a space stands before its first colon. So each printed line says what was printed.
-/

set_option autoImplicit false
set_option relaxedAutoImplicit false

namespace StepScript

open Script Text

/-! ## What is read from a line -/

/-- A text that can stand in a line, as it is left when the blanks around it are trimmed away. -/
structure IsPhrase (s : String) : Prop where
  trimmed : IsTrimmed s.toList
  noBreak : '\n' ∉ s.toList

private theorem isPhrase_ofList_trimChars {cs : List Char} (h : '\n' ∉ cs) :
    IsPhrase (String.ofList (trimChars cs)) where
  trimmed := by
    rw [String.toList_ofList]
    exact isTrimmed_trimChars cs
  noBreak hmem := by
    rw [String.toList_ofList] at hmem
    exact h (mem_of_mem_trimChars hmem)

private theorem IsPhrase.trim_eq {s : String} (h : IsPhrase s) : trim s = s := by
  rw [trim, trimChars_of_isTrimmed h.trimmed, String.ofList_toList]

theorem isPhrase_of_mem_lines {source l : String} (h : l ∈ lines source) : IsPhrase l := by
  obtain ⟨cs, hcs, rfl⟩ := List.mem_map.1 (List.mem_of_mem_filter h)
  exact isPhrase_ofList_trimChars (not_mem_of_mem_splitAtEach hcs)

theorem Script.Follows.isPhrase {marker line text : String} (h : Follows marker line text)
    (hline : IsPhrase line) : IsPhrase text := by
  obtain ⟨rest, hrest, rfl⟩ := h
  refine isPhrase_ofList_trimChars fun hmem => hline.noBreak ?_
  rw [hrest]
  exact List.mem_append_right _ hmem

private def Script.IsMarker (marker : String) : Prop :=
  ∃ word, marker = word ++ ":" ∧ IsPhrase word ∧ word ≠ "" ∧ ':' ∉ word.toList

namespace Action

/-- The actions that lines say. -/
structure IsSayable (a : Action) : Prop where
  name : IsPhrase a.name
  name_ne : a.name ≠ ""
  name_colon : ':' ∉ a.name.toList
  text : IsPhrase a.text
  text_ne : a.text ≠ ""
  arg : ∀ arg ∈ a.arg, IsPhrase arg ∧ ':' ∉ arg.toList ∧ '(' ∉ arg.toList
  plain : a.arg = none → ∀ name inside, ¬ HasArgument a.name.toList name inside

theorem Reads.isSayable {line : String} {a : Action} (h : Reads line a)
    (hline : '\n' ∉ line.toList) :
    a.IsSayable := by
  obtain ⟨hcut, hbefore, hafter, hheads⟩ := h
  rename_i before after name arg
  rw [hcut.eq] at hline
  have hhead : IsTrimmed (trimChars before) := isTrimmed_trimChars before
  have hcolon : ':' ∉ trimChars before := fun hmem => hcut.not_mem (mem_of_mem_trimChars hmem)
  have hbefore_break : '\n' ∉ before := fun hmem => hline (List.mem_append_left _ hmem)
  have hbreak : '\n' ∉ trimChars before := fun hmem => hbefore_break (mem_of_mem_trimChars hmem)
  have htext : IsPhrase (String.ofList (trimChars after)) :=
    isPhrase_ofList_trimChars fun hmem => hline (by simp [hmem])
  have htext_ne : String.ofList (trimChars after) ≠ "" :=
    fun h => hafter (ofList_trimChars_eq_empty_iff.1 h)
  cases hheads with
  | @argument name inside harg =>
    have hsub : ∀ c ∈ name, c ∈ trimChars before := fun c hc => by simp [harg.eq, hc]
    have hsub' : ∀ c ∈ inside, c ∈ trimChars before := fun c hc => by simp [harg.eq, hc]
    have hname : ¬ AreBlank name := by
      obtain ⟨c, rest, rfl⟩ := List.exists_cons_of_ne_nil harg.ne_nil
      intro hblank
      have hc := hhead.first c (by simp [harg.eq])
      rw [hblank c List.mem_cons_self] at hc
      cases hc
    refine ⟨isPhrase_ofList_trimChars fun h => hbreak (hsub _ h),
      fun h => hname (ofList_trimChars_eq_empty_iff.1 h), ?_, htext, htext_ne, ?_, nofun⟩
    · rw [String.toList_ofList]
      exact fun h => hcolon (hsub _ (mem_of_mem_trimChars h))
    · rintro _ ⟨⟩
      refine ⟨isPhrase_ofList_trimChars fun h => hbreak (hsub' _ h), ?_, ?_⟩
      · rw [String.toList_ofList]
        exact fun h => hcolon (hsub' _ (mem_of_mem_trimChars h))
      · rw [String.toList_ofList]
        exact fun h => harg.not_mem (mem_of_mem_trimChars h)
  | plain hplain =>
    refine ⟨isPhrase_ofList_trimChars hbefore_break,
      fun h => hbefore (ofList_trimChars_eq_empty_iff.1 h), ?_, htext, htext_ne, nofun, fun _ => ?_⟩
    · rwa [String.toList_ofList]
    · rwa [String.toList_ofList]

theorem toList_head (a : Action) : a.head.toList = a.name.toList ++
    match a.arg with
    | none => []
    | some arg => '(' :: (arg.toList ++ [')']) := by
  unfold head
  cases a.arg with
  | none => simp
  | some arg => simp [String.toList_append]

namespace IsSayable

variable {a : Action}

private theorem head_trimmed (h : a.IsSayable) : IsTrimmed a.head.toList := by
  rw [toList_head]
  have hne : a.name.toList ≠ [] := fun hnil => h.name_ne (String.toList_eq_nil_iff.1 hnil)
  cases harg : a.arg with
  | none => simpa using h.name.trimmed
  | some arg =>
    have hclosing : IsTrimmed [')'] := isTrimmed_singleton (by decide)
    simpa using h.name.trimmed.append hclosing hne (List.cons_ne_nil _ _) ('(' :: arg.toList)

theorem head_colon (h : a.IsSayable) : ':' ∉ a.head.toList := by
  rw [toList_head]
  cases harg : a.arg with
  | none => simpa using h.name_colon
  | some arg =>
    have hcolon := (h.arg arg harg).2.1
    simp [h.name_colon, hcolon]

private theorem isCut (h : a.IsSayable) : IsCut a.line.toList
    (a.head.toList ++ [' ']) a.text.toList where
  eq := by simp [line, String.toList_append]
  not_mem := by simp [h.head_colon]

private theorem heads (h : a.IsSayable) : Heads a.head.toList a.name.toList
    (a.arg.map String.toList) := by
  rw [toList_head]
  cases harg : a.arg with
  | none => simpa using Heads.plain (h.plain harg)
  | some arg =>
    obtain ⟨hphrase, -, hopening⟩ := h.arg arg harg
    have hne : a.name.toList ≠ [] := fun hnil => h.name_ne (String.toList_eq_nil_iff.1 hnil)
    have hargument : HasArgument (a.name.toList ++ '(' :: (arg.toList ++ [')'])) a.name.toList
        arg.toList := ⟨rfl, hne, hopening⟩
    have hheads := Heads.argument hargument
    rwa [trimChars_of_isTrimmed h.name.trimmed, trimChars_of_isTrimmed hphrase.trimmed] at hheads

theorem reads_of_isCut (h : a.IsSayable) {line : String} {gap : List Char} (hgap : AreBlank gap)
    (hcut : IsCut line.toList (a.head.toList ++ gap) a.text.toList) : Reads line a := by
  have hhead : trimChars (a.head.toList ++ gap) = a.head.toList := by
    rw [trimChars_append_blank hgap, trimChars_of_isTrimmed h.head_trimmed]
  have hbefore : ¬ AreBlank (a.head.toList ++ gap) := by
    rw [← trimChars_eq_nil_iff, hhead, toList_head]
    simp [String.toList_eq_nil_iff, h.name_ne]
  have hafter : ¬ AreBlank a.text.toList :=
    h.text.trimmed.not_areBlank fun hnil => h.text_ne (String.toList_eq_nil_iff.1 hnil)
  have hheads : Heads (trimChars (a.head.toList ++ gap)) a.name.toList
      (a.arg.map String.toList) := by
    rw [hhead]
    exact h.heads
  have hreads := Reads.intro hcut hbefore hafter hheads
  rw [trimChars_of_isTrimmed h.text.trimmed] at hreads
  simpa [Function.comp_def] using hreads

private theorem reads (h : a.IsSayable) : Reads a.line a :=
  h.reads_of_isCut (areBlank_singleton (by decide)) h.isCut

private theorem isPhrase_line (h : a.IsSayable) : IsPhrase a.line where
  trimmed := by
    have hhead : a.head.toList ≠ [] := by
      rw [toList_head]
      simp [String.toList_eq_nil_iff, h.name_ne]
    have htext : a.text.toList ≠ [] := fun hnil => h.text_ne (String.toList_eq_nil_iff.1 hnil)
    simpa [line, String.toList_append] using
      h.head_trimmed.append h.text.trimmed hhead htext [' ', ':']
  noBreak := by
    have hhead : '\n' ∉ a.head.toList := by
      rw [toList_head]
      cases harg : a.arg with
      | none => simpa using h.name.noBreak
      | some arg =>
        have hbreak := (h.arg arg harg).1.noBreak
        simp [h.name.noBreak, hbreak]
    simp [line, String.toList_append, hhead, h.text.noBreak]

private theorem not_isMarked (h : a.IsSayable) {marker : String} (hmarker : IsMarker marker) :
    ¬ IsMarked marker a.line := by
  obtain ⟨word, rfl, hword, hne, hcolon⟩ := hmarker
  rintro ⟨rest, hrest⟩
  have hcut : IsCut a.line.toList word.toList rest :=
    ⟨by simp [← hrest, String.toList_append], hcolon⟩
  have hspace := hword.trimmed.last ' ' (by simp [(hcut.unique h.isCut).1])
  exact absurd hspace (by decide)

end IsSayable
end Action

/-! ## Printed lines -/

namespace Script

variable {α : Type}

private def Saying.line (opening : α → String) : Saying α → String
  | .title name => conceptMarker ++ " " ++ name
  | .opening head => opening head
  | .action a => a.line

structure LineForm.IsPrinted (form : LineForm α) (line : String) (s : Saying α) : Prop where
  noBreak : '\n' ∉ line.toList
  notBlank : ¬ AreBlank line.toList
  saying : form.Says (trim line) s

section Marker

variable {marker text : String}

private theorem IsMarker.trimmed (h : IsMarker marker) : IsTrimmed marker.toList := by
  obtain ⟨word, rfl, hword, hne, -⟩ := h
  have hcolon : IsTrimmed [':'] := isTrimmed_singleton isBlank_colon
  have hword_ne : word.toList ≠ [] := fun hnil => hne (String.toList_eq_nil_iff.1 hnil)
  simpa [String.toList_append] using
    hword.trimmed.append hcolon hword_ne (List.cons_ne_nil _ _) []

private theorem IsMarker.ne_nil (h : IsMarker marker) : marker.toList ≠ [] := by
  obtain ⟨word, rfl, -⟩ := h
  simp [String.toList_append]

private theorem IsMarker.noBreak_line (h : IsMarker marker) (htext : IsPhrase text) :
    '\n' ∉ (marker ++ " " ++ text).toList := by
  obtain ⟨word, rfl, hword, -⟩ := h
  simp [String.toList_append, hword.noBreak, htext.noBreak]

private theorem IsMarker.notBlank_line (h : IsMarker marker) :
    ¬ AreBlank (marker ++ " " ++ text).toList := by
  have hmarker := h.trimmed.not_areBlank h.ne_nil
  exact fun hblank => hmarker fun c hc => hblank c (by simp [String.toList_append, hc])

private theorem IsMarker.follows (h : IsMarker marker) (htext : IsPhrase text) :
    Follows marker (trim (marker ++ " " ++ text)) text := by
  have hspace : AreBlank [' '] := areBlank_singleton (by decide)
  by_cases hempty : text = ""
  · subst hempty
    refine ⟨[], ?_, rfl⟩
    simp [trim, String.toList_append, trimChars_append_blank hspace,
      trimChars_of_isTrimmed h.trimmed]
  · have htext_ne : text.toList ≠ [] := fun hnil => hempty (String.toList_eq_nil_iff.1 hnil)
    have hline := trimChars_of_isTrimmed (h.trimmed.append htext.trimmed h.ne_nil htext_ne [' '])
    have hrest := trimChars_blank_append hspace text.toList
    rw [trimChars_of_isTrimmed htext.trimmed] at hrest
    refine ⟨[' '] ++ text.toList, ?_, ?_⟩
    · simpa [trim, String.toList_append] using hline
    · rw [hrest, String.ofList_toList]

end Marker

private theorem lines_of_noBreak {l : String} (hbreak : '\n' ∉ l.toList)
    (hblank : ¬ AreBlank l.toList) : lines l = [trim l] := by
  have hne : trim l ≠ "" := fun h => hblank (ofList_trimChars_eq_empty_iff.1 h)
  rw [lines, splitAtEach_of_not_mem hbreak]
  simpa [trim] using hne

private theorem lines_ofLines {ls : List String}
    (h : ∀ l ∈ ls, '\n' ∉ l.toList ∧ ¬ AreBlank l.toList) : lines (ofLines ls) = ls.map trim := by
  induction ls with
  | nil => rfl
  | cons l ls ih =>
    obtain ⟨hbreak, hblank⟩ := h l List.mem_cons_self
    have hrest := ih fun l' hl' => h l' (List.mem_cons_of_mem l hl')
    cases ls with
    | nil => simpa [ofLines] using lines_of_noBreak hbreak hblank
    | cons l' ls =>
      rw [ofLines, String.intercalate_cons_of_ne_nil (by simp), lines_append,
        lines_of_noBreak hbreak hblank, ← ofLines, hrest]
      rfl

private theorem LineForm.laid_printed {form : LineForm α} {opening : α → String}
    {sayings : List (Saying α)} (h : ∀ s ∈ sayings, form.IsPrinted (s.line opening) s) :
    List.Forall₂ form.Says (lines (ofLines (sayings.map (Saying.line opening)))) sayings := by
  rw [lines_ofLines, List.map_map, List.forall₂_map_left_iff, List.forall₂_same]
  · exact fun s hs => (h s hs).saying
  · intro l hl
    obtain ⟨s, hs, rfl⟩ := List.mem_map.1 hl
    exact ⟨(h s hs).noBreak, (h s hs).notBlank⟩

private theorem Section.saying_parts {sections : List (Section α)} {s : Saying α}
    (hs : s ∈ sections.flatMap Section.sayings) : s.titles = [] ∧ s.body = [s] := by
  obtain ⟨sec, -, hmem⟩ := List.mem_flatMap.1 hs
  rcases List.mem_cons.1 hmem with rfl | haction
  · exact ⟨rfl, rfl⟩
  · obtain ⟨a, -, rfl⟩ := List.mem_map.1 haction
    exact ⟨rfl, rfl⟩

/-- What a form reads from the lines of a text is read again from the lines that are printed for
it. -/
structure LineForm.Prints (form : LineForm α) (opening : α → String) : Prop where
  title : ∀ {l name}, IsPhrase l → form.Title l name →
    form.IsPrinted (conceptMarker ++ " " ++ name) (.title name)
  opening : ∀ {l head}, IsPhrase l → form.Opening l head →
    form.IsPrinted (opening head) (.opening head)
  action : ∀ {a : Action}, a.IsSayable → ¬ form.Marked a.line

namespace LineForm.Prints

variable {form : LineForm α} {opening : α → String}

private theorem isPrinted (h : form.Prints opening) {l : String} {s : Saying α} (hl : IsPhrase l)
    (hs : form.Says l s) : form.IsPrinted (s.line opening) s := by
  cases hs with
  | title htitle => exact h.title hl htitle
  | opening hopening => exact h.opening hl hopening
  | @action a hmark hreads =>
    have ha := hreads.isSayable hl.noBreak
    have hne : a.line.toList ≠ [] := by simp [ha.isCut.eq]
    refine ⟨ha.isPhrase_line.noBreak, ha.isPhrase_line.trimmed.not_areBlank hne, ?_⟩
    rw [Saying.line, ha.isPhrase_line.trim_eq]
    exact .action (h.action ha) ha.reads

private theorem laid (h : form.Prints opening) {g : Grammar α} (hg : g.Recognises form)
    {source : String} {title : Option String} {sections : List (Section α)}
    (hlaid : form.Laid (lines source) title sections) :
    form.Laid (lines (ofLines
      ((title.toList.map Saying.title ++ sections.flatMap Section.sayings).map (Saying.line opening))))
      title sections := by
  have hprinted {s : Saying α} (hsaid : ∃ l ∈ lines source, form.Says l s) :
      form.IsPrinted (s.line opening) s := by
    obtain ⟨l, hl, hs⟩ := hsaid
    exact h.isPrinted (isPhrase_of_mem_lines hl) hs
  refine ⟨_, laid_printed fun s hs => hprinted ?_, ?_, ?_⟩
  · rcases List.mem_append.1 hs with hs | hs
    · obtain ⟨name, hname, rfl⟩ := List.mem_map.1 hs
      obtain ⟨l, hl, htitle⟩ := (hg.title_iff_of_laid hlaid).1 (Option.mem_toList.1 hname)
      exact ⟨l, hl, .title htitle⟩
    · exact (hg.mem_sayings_iff_of_laid hlaid (Section.saying_parts hs).1).1 hs
  · have hnames : (title.toList.map Saying.title : List (Saying α)).flatMap Saying.titles =
        title.toList := by
      simp [List.flatMap_map, Saying.titles]
    rw [List.flatMap_append, hnames, List.flatMap_eq_nil_iff.2 fun s hs => (Section.saying_parts hs).1,
      List.append_nil]
  · have hnone : (title.toList.map Saying.title : List (Saying α)).flatMap Saying.body = [] := by
      simp [List.flatMap_map, Saying.body]
    rw [List.flatMap_append, hnone, List.nil_append,
      List.flatMap_congr fun s hs => (Section.saying_parts hs).2, List.flatMap_singleton']

end LineForm.Prints

private theorem isMarker_of_word {marker : String} (word : String) (heq : marker = word ++ ":")
    (hne : word ≠ "") (h : word.toList.all (fun c => !isBlank c && c != ':') = true) :
    IsMarker marker := by
  have hchars : ∀ c ∈ word.toList, isBlank c = false ∧ c ≠ ':' := by
    simpa [List.all_eq_true] using h
  have htrimmed : IsTrimmed word.toList :=
    ⟨fun c hc => (hchars c (List.mem_of_mem_head? hc)).1,
      fun c hc => (hchars c (List.mem_of_mem_getLast? hc)).1⟩
  have hbreak : '\n' ∉ word.toList := fun hmem => absurd (hchars _ hmem).1 (by decide)
  exact ⟨word, heq, ⟨htrimmed, hbreak⟩, hne, fun hmem => (hchars _ hmem).2 rfl⟩

private theorem isMarker_step : IsMarker stepMarker := isMarker_of_word "Step" rfl (by decide)
    (by decide)

private theorem isMarker_concept : IsMarker conceptMarker :=
  isMarker_of_word "Concept" rfl (by decide) (by decide)

private theorem isMarker_behavior : IsMarker behaviorMarker :=
  isMarker_of_word "Behavior" rfl (by decide) (by decide)

private theorem isMarker_hook : ∀ phase, IsMarker (hookMarker phase)
  | .before => isMarker_of_word "Before" rfl (by decide) (by decide)
  | .after => isMarker_of_word "After" rfl (by decide) (by decide)

private theorem stepForm_prints : stepForm.Prints fun head => stepMarker ++ " " ++ head where
  title _ h := h.elim
  opening hl h :=
    have hphrase := h.1.isPhrase hl
    ⟨isMarker_step.noBreak_line hphrase, isMarker_step.notBlank_line,
      .opening ⟨isMarker_step.follows hphrase, h.2⟩⟩
  action ha := ha.not_isMarked isMarker_step

private theorem hookForm_prints :
    hookForm.Prints fun head => hookMarker head.phase ++ " " ++ head.tags where
  title _ h := h.elim
  opening hl h :=
    have hphrase := h.1.isPhrase hl
    ⟨(isMarker_hook _).noBreak_line hphrase, (isMarker_hook _).notBlank_line,
      .opening ⟨(isMarker_hook _).follows hphrase, h.2⟩⟩
  action ha := fun ⟨phase, hmark⟩ => ha.not_isMarked (isMarker_hook phase) hmark

private theorem conceptForm_prints :
    conceptForm.Prints fun head => behaviorMarker ++ " " ++ head where
  title hl h :=
    have hphrase := h.1.isPhrase hl
    ⟨isMarker_concept.noBreak_line hphrase, isMarker_concept.notBlank_line,
      .title ⟨isMarker_concept.follows hphrase, h.2⟩⟩
  opening hl h :=
    have hphrase := h.1.isPhrase hl
    ⟨isMarker_behavior.noBreak_line hphrase, isMarker_behavior.notBlank_line,
      .opening ⟨isMarker_behavior.follows hphrase, h.2⟩⟩
  action ha := fun hmark => hmark.elim (ha.not_isMarked isMarker_concept)
    (ha.not_isMarked isMarker_behavior)

end Script

/-! ## Definitions -/

private theorem map_line_sayings {α : Type} (opening : α → String) (s : Section α) :
    s.sayings.map (Saying.line opening) = opening s.head :: s.actions.map Action.line := by
  simp [Section.sayings, Saying.line, Function.comp_def]

private theorem Step.printAll_eq (steps : List Step) : Step.printAll steps = ofLines
    (((steps.map Step.equivSection).flatMap Section.sayings).map
      (Saying.line fun head => stepMarker ++ " " ++ head)) := by
  rw [Step.printAll, List.flatMap_map, List.map_flatMap]
  refine congrArg ofLines (List.flatMap_congr fun s _ => ?_)
  rw [map_line_sayings]
  rfl

private theorem Hook.printAll_eq (hooks : List Hook) : Hook.printAll hooks = ofLines
    (((hooks.map Hook.equivSection).flatMap Section.sayings).map
      (Saying.line fun head => hookMarker head.phase ++ " " ++ head.tags)) := by
  rw [Hook.printAll, List.flatMap_map, List.map_flatMap]
  refine congrArg ofLines (List.flatMap_congr fun h _ => ?_)
  rw [map_line_sayings]
  rfl

private theorem Concept.print_eq (c : Concept) : c.print = ofLines
    ((.title c.name :: (c.behaviors.map Behavior.equivSection).flatMap Section.sayings).map
      (Saying.line fun head => behaviorMarker ++ " " ++ head)) := by
  rw [Concept.print, List.flatMap_map, List.map_cons, List.map_flatMap]
  refine congrArg (fun ls => ofLines (_ :: ls)) (List.flatMap_congr fun b _ => ?_)
  rw [map_line_sayings]
  rfl

/-- What has been read is read again from its canonical text. -/
theorem definitions_survive_printing (source : String) :
    (∀ steps, Step.parseAll source = .ok steps →
      Step.parseAll (Step.printAll steps) = .ok steps) ∧
    (∀ c, Concept.parse source = .ok c → Concept.parse c.print = .ok c) ∧
    ∀ hooks, Hook.parseAll source = .ok hooks →
      Hook.parseAll (Hook.printAll hooks) = .ok hooks := by
  refine ⟨fun steps hread => ?_, fun c hread => ?_, fun hooks hread => ?_⟩
  · rw [(Step.readsLines _).reads] at hread ⊢
    have hlaid := stepForm_prints.laid stepGrammar_recognises hread
    rwa [Option.toList_none, List.map_nil, List.nil_append, ← Step.printAll_eq] at hlaid
  · rw [(Concept.readsLines _).reads] at hread ⊢
    have hlaid := conceptForm_prints.laid conceptGrammar_recognises hread
    rwa [Option.toList_some, List.map_singleton, List.singleton_append, ← Concept.print_eq] at hlaid
  · rw [(Hook.readsLines _).reads] at hread ⊢
    have hlaid := hookForm_prints.laid hookGrammar_recognises hread
    rwa [Option.toList_none, List.map_nil, List.nil_append, ← Hook.printAll_eq] at hlaid

/-- Steps with arguments that are absent, empty and with a parenthesis, and with actions that are
named like a marker; a concept whose header stands last; hooks without tags. -/
theorem odd_definitions_survive_printing :
    let steps : List Step := [⟨"a", [⟨"Step", "x", none⟩, ⟨"(b)( c) d", "y:", none⟩]⟩,
      ⟨"e", [⟨"f (", "z", some ")"⟩, ⟨"g", "z", some ""⟩]⟩]
    let concept : Concept := ⟨"n", [⟨"a", [⟨"Concept", "x", none⟩]⟩, ⟨"b", []⟩]⟩
    let hooks : List Hook := [⟨.after, "", .any, [⟨"Before", "x", none⟩]⟩]
    (Step.parseAll "Step: a\n Step :x\n(b)( c) d : y:\nStep:  e\nf (( )) :z\n\ng ():z" = .ok steps ∧
      Step.parseAll (Step.printAll steps) = .ok steps) ∧
    (Concept.parse "Behavior:a\nConcept : x\nBehavior: b\nConcept:n " = .ok concept ∧
      Concept.parse concept.print = .ok concept) ∧
    (Hook.parseAll "After: \nBefore :x" = .ok hooks ∧
      Hook.parseAll (Hook.printAll hooks) = .ok hooks) := by
  intro steps concept hooks
  have hsteps : Step.parseAll
      "Step: a\n Step :x\n(b)( c) d : y:\nStep:  e\nf (( )) :z\n\ng ():z" = .ok steps := by
    decide +kernel
  have hconcept : Concept.parse "Behavior:a\nConcept : x\nBehavior: b\nConcept:n " =
      .ok concept := by
    decide +kernel
  have hhooks : Hook.parseAll "After: \nBefore :x" = .ok hooks := by decide +kernel
  exact ⟨⟨hsteps, (definitions_survive_printing _).1 steps hsteps⟩,
    ⟨hconcept, (definitions_survive_printing _).2.1 concept hconcept⟩,
    ⟨hhooks, (definitions_survive_printing _).2.2 hooks hhooks⟩⟩

end StepScript
