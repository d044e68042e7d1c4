import Mathlib.Logic.Equiv.Defs
import StepScript.Proofs.LineGrammar
import StepScript.Proofs.SelectorGrammar

/-!
The line grammars of steps, concepts and hooks. A text of steps or of hooks is read when its first
line is a marker, what stands behind each marker is accepted, and all other lines are actions. A
text of a concept is read when one of its lines, anywhere, is a header with a name, what stands
behind each marker of a behavior is not blank, and all other lines are actions behind such a marker.
-/

set_option autoImplicit false
set_option relaxedAutoImplicit false

namespace StepScript

def Phase.word : Phase → String
  | .before => "Before:"
  | .after => "After:"

namespace Script

open Text

/-! ## The forms of lines -/

def stepForm : LineForm String where
  Marked := IsMarked "Step:"
  Title _ _ := False
  Opening line head := Follows "Step:" line head ∧ head ≠ ""
  Flawed line e := Follows "Step:" line "" ∧ e = .malformed line .emptyStepText
  orphan := .actionBeforeStep

def hookForm : LineForm HookHead where
  Marked line := ∃ phase : Phase, IsMarked phase.word line
  Title _ _ := False
  Opening line head :=
    Follows head.phase.word line head.tags ∧ head.selector.IsSaidBy head.tags
  Flawed line e :=
    ∃ (phase : Phase) (tags : String), Follows phase.word line tags ∧ Selector.parse tags = .error e
  orphan := .actionBeforeHook

inductive IsNameFault (name : String) : Fault → Prop
  | empty : name = "" → IsNameFault name .emptyConceptName
  | colon : ':' ∈ name.toList → IsNameFault name .colonInConceptName

def conceptForm : LineForm String where
  Marked line := IsMarked "Concept:" line ∨ IsMarked "Behavior:" line
  Title line name := Follows "Concept:" line name ∧ ∀ f, ¬ IsNameFault name f
  Opening line head := Follows "Behavior:" line head ∧ head ≠ ""
  Flawed line e :=
    (∃ name f, Follows "Concept:" line name ∧ IsNameFault name f ∧ e = .malformed line f) ∨
      (Follows "Behavior:" line "" ∧ e = .malformed line .emptyBehaviorText)
  orphan := .actionBeforeBehavior

private theorem Follows.unique {marker line text text' : String} (h : Follows marker line text)
    (h' : Follows marker line text') : text = text' := by
  rw [← rest?_eq_some_iff] at h h'
  exact Option.some.inj (h.symm.trans h')

/-! ## What the grammars recognise -/

private theorem ofMarkers_eq_some_iff {β : Type} {marker marker' line : String}
    {read read' : String → β} {b : β}
    (hne : ¬ marker.toList <+: marker'.toList) (hne' : ¬ marker'.toList <+: marker.toList) :
    (match rest? marker line with
      | some text => some (read text)
      | none => (rest? marker' line).map read') = some b ↔
      (∃ text, Follows marker line text ∧ read text = b) ∨
        ∃ text, Follows marker' line text ∧ read' text = b := by
  split
  · next text hfollows =>
    rw [rest?_eq_some_iff] at hfollows
    constructor
    · intro h
      exact .inl ⟨text, hfollows, Option.some.inj h⟩
    · rintro (⟨text', hfollows', rfl⟩ | ⟨text', hfollows', -⟩)
      · rw [hfollows.unique hfollows']
      · exact absurd (hfollows.isMarked.prefix_or_prefix hfollows'.isMarked) (by simp [hne, hne'])
  · next hnone =>
    rw [rest?_eq_none_iff] at hnone
    rw [Option.map_eq_some_iff]
    simp only [rest?_eq_some_iff]
    exact ⟨.inr, fun h => h.resolve_left fun ⟨text, hfollows, _⟩ => hnone hfollows.isMarked⟩

private theorem ofMarkers_eq_none_iff {β : Type} {marker marker' line : String}
    {read read' : String → β} :
    (match rest? marker line with
      | some text => some (read text)
      | none => (rest? marker' line).map read') = none ↔
      ¬ (IsMarked marker line ∨ IsMarked marker' line) := by
  rw [not_or, ← rest?_eq_none_iff, ← rest?_eq_none_iff]
  split <;> simp_all

private theorem pattern_eq_opens_iff {line text head : String} {empty : Fault} :
    pattern line text empty = .ok (.opens head) ↔ text = head ∧ head ≠ "" := by
  unfold pattern
  split
  · next h => simp_all [fault]
  · next h =>
    simp only [Except.ok.injEq, Mark.opens.injEq]
    exact ⟨fun heq => ⟨heq, by simpa [heq] using h⟩, fun heq => heq.1⟩

private theorem pattern_ne_names {line text name : String} {empty : Fault} :
    pattern line text empty ≠ .ok (.names name) := by
  unfold pattern
  split <;> simp [fault]

private theorem pattern_eq_error_iff {line text : String} {empty : Fault} {e : ScriptError} :
    pattern line text empty = .error e ↔ text = "" ∧ e = .malformed line empty := by
  unfold pattern
  split
  · next h => simpa [fault, eq_of_beq h] using eq_comm
  · next h => simp_all

theorem stepGrammar_recognises : stepGrammar.Recognises stepForm where
  unmarked line := by
    rw [stepGrammar, Option.map_eq_none_iff, rest?_eq_none_iff]
    rfl
  title line name := by
    simp [stepGrammar, stepForm, pattern_ne_names]
  opening line head := by
    simp only [stepGrammar, stepForm, Option.map_eq_some_iff, rest?_eq_some_iff,
      pattern_eq_opens_iff]
    exact ⟨fun ⟨_, h, rfl, hne⟩ => ⟨h, hne⟩, fun ⟨h, hne⟩ => ⟨_, h, rfl, hne⟩⟩
  flawed line e := by
    simp only [stepGrammar, stepForm, Option.map_eq_some_iff, rest?_eq_some_iff,
      pattern_eq_error_iff]
    exact ⟨fun ⟨_, h, rfl, he⟩ => ⟨h, he⟩, fun ⟨h, he⟩ => ⟨_, h, rfl, he⟩⟩
  orphan := rfl

private theorem hookHead_eq_opens_iff {phase : Phase} {tags : String} {head : HookHead} :
    hookHead phase tags = .ok (.opens head) ↔
      head.phase = phase ∧ head.tags = tags ∧ head.selector.IsSaidBy tags := by
  rw [← Selector.parse_eq_ok_iff_isSaidBy]
  unfold hookHead
  split
  · next selector hparse =>
    simp only [Except.ok.injEq, Mark.opens.injEq]
    constructor
    · rintro rfl
      exact ⟨rfl, rfl, hparse⟩
    · obtain ⟨phase', tags', selector'⟩ := head
      rintro ⟨rfl, rfl, hparse'⟩
      rw [hparse] at hparse'
      cases hparse'
      rfl
  · next e hparse =>
    simp only [reduceCtorEq, false_iff]
    rintro ⟨-, -, hparse'⟩
    rw [hparse] at hparse'
    cases hparse'

private theorem hookHead_ne_names {phase : Phase} {tags name : String} :
    hookHead phase tags ≠ .ok (.names name) := by
  unfold hookHead
  split <;> simp

private theorem hookHead_eq_error_iff {phase : Phase} {tags : String} {e : ScriptError} :
    hookHead phase tags = .error e ↔ Selector.parse tags = .error e := by
  unfold hookHead
  split <;> simp_all

private theorem hookGrammar_mark_eq_some_iff {line : String}
    {m : Except ScriptError (Mark HookHead)} : hookGrammar.mark line = some m ↔
      ∃ phase tags, Follows (hookMarker phase) line tags ∧ hookHead phase tags = m := by
  refine (ofMarkers_eq_some_iff (by decide) (by decide)).trans ⟨?_, ?_⟩
  · rintro (⟨tags, h⟩ | ⟨tags, h⟩)
    · exact ⟨.before, tags, h⟩
    · exact ⟨.after, tags, h⟩
  · rintro ⟨_ | _, tags, h⟩
    · exact .inl ⟨tags, h⟩
    · exact .inr ⟨tags, h⟩

theorem hookGrammar_recognises : hookGrammar.Recognises hookForm where
  unmarked line := by
    refine ofMarkers_eq_none_iff.trans (not_congr ⟨?_, ?_⟩)
    · rintro (h | h)
      · exact ⟨.before, h⟩
      · exact ⟨.after, h⟩
    · rintro ⟨_ | _, h⟩
      · exact .inl h
      · exact .inr h
  title line name := by
    simp [hookGrammar_mark_eq_some_iff, hookForm, hookHead_ne_names]
  opening line head := by
    simp only [hookGrammar_mark_eq_some_iff, hookForm, hookHead_eq_opens_iff]
    exact ⟨fun ⟨_, _, h, hphase, htags, hsaid⟩ => ⟨hphase ▸ htags ▸ h, htags ▸ hsaid⟩,
      fun ⟨h, hsaid⟩ => ⟨_, _, h, rfl, rfl, hsaid⟩⟩
  flawed line e := by
    simp only [hookGrammar_mark_eq_some_iff, hookForm, hookHead_eq_error_iff]
    rfl
  orphan := rfl

private theorem title_eq_names_iff {line name name' : String} :
    title line name = .ok (.names name') ↔ name = name' ∧ ∀ f, ¬ IsNameFault name' f := by
  unfold title
  split
  · next h =>
    simp only [fault, reduceCtorEq, false_iff, not_and]
    rintro rfl hnone
    exact hnone _ (.empty (by simpa using h))
  · next hempty =>
    split
    · next h =>
      simp only [fault, reduceCtorEq, false_iff, not_and]
      rintro rfl hnone
      exact hnone _ (.colon (by simpa using h))
    · next hcolon =>
      simp only [Except.ok.injEq, Mark.names.injEq]
      refine ⟨fun h => ⟨h, h ▸ ?_⟩, fun h => h.1⟩
      rintro f (h' | h')
      · simp [h'] at hempty
      · simp [h'] at hcolon

private theorem title_ne_opens {line name head : String} : title line name ≠ .ok (.opens head) := by
  unfold title
  split
  · simp [fault]
  · split <;> simp [fault]

private theorem title_eq_error_iff {line name : String} {e : ScriptError} :
    title line name = .error e ↔ ∃ f, IsNameFault name f ∧ e = .malformed line f := by
  constructor
  · unfold title
    split
    · next h =>
      rintro ⟨⟩
      exact ⟨_, .empty (by simpa using h), rfl⟩
    · split
      · next h =>
        rintro ⟨⟩
        exact ⟨_, .colon (by simpa using h), rfl⟩
      · nofun
  · rintro ⟨f, h | h, rfl⟩
    · simp [title, h, fault]
    · have hne : name ≠ "" := by
        rintro rfl
        simp at h
      simp [title, h, hne, fault]

private theorem conceptGrammar_mark_eq_some_iff {line : String}
    {m : Except ScriptError (Mark String)} : conceptGrammar.mark line = some m ↔
      (∃ name, Follows conceptMarker line name ∧ title line name = m) ∨
        ∃ text, Follows behaviorMarker line text ∧ pattern line text .emptyBehaviorText = m :=
  ofMarkers_eq_some_iff (by decide) (by decide)

theorem conceptGrammar_recognises : conceptGrammar.Recognises conceptForm where
  unmarked line := ofMarkers_eq_none_iff
  title line name := by
    simp only [conceptGrammar_mark_eq_some_iff, conceptForm, title_eq_names_iff, pattern_ne_names,
      and_false, exists_false, or_false]
    exact ⟨fun ⟨_, h, rfl, hname⟩ => ⟨h, hname⟩, fun ⟨h, hname⟩ => ⟨_, h, rfl, hname⟩⟩
  opening line head := by
    simp only [conceptGrammar_mark_eq_some_iff, conceptForm, title_ne_opens, pattern_eq_opens_iff,
      and_false, exists_false, false_or]
    exact ⟨fun ⟨_, h, rfl, hne⟩ => ⟨h, hne⟩, fun ⟨h, hne⟩ => ⟨_, h, rfl, hne⟩⟩
  flawed line e := by
    simp only [conceptGrammar_mark_eq_some_iff, conceptForm, title_eq_error_iff,
      pattern_eq_error_iff]
    refine or_congr ?_ ?_
    · simp only [exists_and_left]
      rfl
    · exact ⟨fun ⟨_, h, rfl, he⟩ => ⟨h, he⟩, fun ⟨h, he⟩ => ⟨_, h, rfl, he⟩⟩
  orphan := rfl

/-! ## The lines that are accepted -/

/-- The first line is a marker, what stands behind each marker is accepted, and all other lines are
actions. -/
structure AreSections (Marked Accepted : String → Prop) (ls : List String) : Prop where
  first : ∀ l ∈ ls.head?, Marked l
  accepted : ∀ l ∈ ls, Marked l → Accepted l
  actions : ∀ l ∈ ls, ¬ Marked l → IsActionLine l

def AreSteps (ls : List String) : Prop :=
  AreSections (IsMarked "Step:") (HasRest "Step:") ls

def HasSelector (line : String) : Prop :=
  ∃ (phase : Phase) (tags : String) (selector : Selector),
    Follows phase.word line tags ∧ selector.IsSaidBy tags

def AreHooks (ls : List String) : Prop :=
  AreSections (fun l => ∃ phase : Phase, IsMarked phase.word l) HasSelector ls

def IsHeader (line : String) : Prop :=
  ∃ name, Follows "Concept:" line name ∧ name ≠ "" ∧ ':' ∉ name.toList

structure IsConcept (ls : List String) : Prop where
  header : ∃ before line after, ls = before ++ line :: after ∧ IsHeader line ∧
    ∀ l ∈ before ++ after, ¬ IsMarked "Concept:" l
  accepted : ∀ l ∈ ls, IsMarked "Behavior:" l → HasRest "Behavior:" l
  actions : ∀ l ∈ ls, ¬ IsMarked "Concept:" l → ¬ IsMarked "Behavior:" l → IsActionLine l
  opened : ∀ before line, before ++ [line] <+: ls → ¬ IsMarked "Concept:" line →
    ¬ IsMarked "Behavior:" line → ∃ l ∈ before, IsMarked "Behavior:" l

private theorem Grammar.Recognises.sound_iff_areSections {α : Type} {g : Grammar α}
    {form : LineForm α}
    (h : g.Recognises form) (htitle : ∀ l name, ¬ form.Title l name) {ls : List String} :
    form.Sound ls ↔ AreSections form.Marked (fun l => ∃ head, form.Opening l head) ls := by
  have haccepted : (∀ l ∈ ls, ∀ e, ¬ form.Flawed l e) ↔
      ∀ l ∈ ls, form.Marked l → ∃ head, form.Opening l head := by
    simp only [h.not_flawed_iff, htitle, exists_false, false_or]
  have honce : form.TitledOnce ls := by
    simp [LineForm.TitledOnce, htitle, List.pairwise_iff_forall_sublist]
  rw [LineForm.sound_iff, haccepted]
  constructor
  · rintro ⟨hmarked, hactions, hopened, -⟩
    exact ⟨(LineForm.opened_iff hmarked).1 hopened, hmarked, hactions⟩
  · rintro ⟨hfirst, hmarked, hactions⟩
    exact ⟨hmarked, hactions, (LineForm.opened_iff hmarked).2 hfirst, honce⟩

private theorem sound_steps_iff {ls : List String} : stepForm.Sound ls ↔ AreSteps ls := by
  rw [stepGrammar_recognises.sound_iff_areSections fun _ _ => id]
  have hrest (l : String) : (∃ head, stepForm.Opening l head) ↔ HasRest "Step:" l :=
    hasRest_iff.symm
  simp only [hrest]
  rfl

private theorem sound_hooks_iff {ls : List String} : hookForm.Sound ls ↔ AreHooks ls := by
  rw [hookGrammar_recognises.sound_iff_areSections fun _ _ => id]
  have hselector (l : String) : (∃ head, hookForm.Opening l head) ↔ HasSelector l := by
    unfold HasSelector
    exact ⟨fun ⟨head, h⟩ => ⟨head.phase, head.tags, head.selector, h⟩,
      fun ⟨phase, tags, selector, h⟩ => ⟨⟨phase, tags, selector⟩, h⟩⟩
  simp only [hselector]
  rfl

private theorem not_isNameFault_iff {name : String} :
    (∀ f, ¬ IsNameFault name f) ↔ name ≠ "" ∧ ':' ∉ name.toList := by
  constructor
  · exact fun h => ⟨fun hempty => h _ (.empty hempty), fun hcolon => h _ (.colon hcolon)⟩
  · rintro ⟨hempty, hcolon⟩ f (h | h)
    · exact hempty h
    · exact hcolon h

private theorem exists_title_iff {line : String} :
    (∃ name, conceptForm.Title line name) ↔ IsHeader line := by
  simp only [conceptForm, not_isNameFault_iff]
  rfl

private theorem exists_behavior_iff {line : String} :
    (∃ head, conceptForm.Opening line head) ↔ HasRest "Behavior:" line :=
  hasRest_iff.symm

private theorem IsHeader.isMarked {line : String} (h : IsHeader line) :
    IsMarked "Concept:" line := by
  obtain ⟨name, hfollows, -⟩ := h
  exact hfollows.isMarked

private theorem HasRest.isMarked {marker line : String} (h : HasRest marker line) :
    IsMarked marker line := by
  obtain ⟨rest, hline, -⟩ := h
  exact ⟨rest, hline.symm⟩

private theorem not_header_and_behavior {line : String} (h : IsMarked "Concept:" line)
    (h' : IsMarked "Behavior:" line) : False := by
  rcases h.prefix_or_prefix h' with hinit | hinit
  · exact absurd hinit (by decide)
  · exact absurd hinit (by decide)

private theorem concept_not_flawed_iff {l : String} : (∀ e, ¬ conceptForm.Flawed l e) ↔
    (IsMarked "Concept:" l → IsHeader l) ∧
      (IsMarked "Behavior:" l → HasRest "Behavior:" l) := by
  rw [conceptGrammar_recognises.not_flawed_iff, exists_title_iff, exists_behavior_iff]
  constructor
  · intro h
    refine ⟨fun hconcept => ?_, fun hbehavior => ?_⟩
    · exact (h (.inl hconcept)).resolve_right fun hrest =>
        not_header_and_behavior hconcept hrest.isMarked
    · exact (h (.inr hbehavior)).resolve_left fun hheader =>
        not_header_and_behavior hheader.isMarked hbehavior
  · rintro ⟨hheader, hrest⟩ (hconcept | hbehavior)
    · exact .inl (hheader hconcept)
    · exact .inr (hrest hbehavior)

private theorem one_header_iff {ls : List String} :
    (∃ before line after, ls = before ++ line :: after ∧ IsHeader line ∧
      ∀ l ∈ before ++ after, ¬ IsMarked "Concept:" l) ↔
    (∀ l ∈ ls, IsMarked "Concept:" l → IsHeader l) ∧
      (ls.Pairwise fun l line => ¬ (IsHeader l ∧ IsHeader line)) ∧
      ∃ l ∈ ls, IsMarked "Concept:" l := by
  constructor
  · rintro ⟨before, line, after, rfl, hheader, hothers⟩
    have hother {l : String} (hl : l ∈ before ++ after) : ¬ IsHeader l :=
      fun h => hothers l hl h.isMarked
    refine ⟨fun l hl hmark => ?_, ?_, line, by simp, hheader.isMarked⟩
    · rcases List.mem_append.1 hl with hbefore | hl
      · exact absurd hmark (hothers l (List.mem_append_left _ hbefore))
      · rcases List.mem_cons.1 hl with rfl | hafter
        · exact hheader
        · exact absurd hmark (hothers l (List.mem_append_right _ hafter))
    · simp only [List.pairwise_append, List.pairwise_cons]
      refine ⟨?_, ⟨?_, ?_⟩, ?_⟩
      · exact List.pairwise_of_forall_mem_list fun l hl _ _ h =>
          hother (List.mem_append_left _ hl) h.1
      · exact fun l hl h => hother (List.mem_append_right _ hl) h.2
      · exact List.pairwise_of_forall_mem_list fun l hl _ _ h =>
          hother (List.mem_append_right _ hl) h.1
      · exact fun l hl _ _ h => hother (List.mem_append_left _ hl) h.1
  · rintro ⟨hheader, honce, line, hline, hmarked⟩
    obtain ⟨before, after, rfl⟩ := List.append_of_mem hline
    refine ⟨before, line, after, rfl, hheader line hline hmarked, fun l hl hmark => ?_⟩
    rw [List.pairwise_append, List.pairwise_cons] at honce
    obtain ⟨-, ⟨hafter, -⟩, hbefore⟩ := honce
    -- A line with the marker is a header, and there is no second one, above or below.
    rcases List.mem_append.1 hl with hl | hl
    · exact hbefore l hl line (by simp) ⟨hheader l (by simp [hl]) hmark, hheader _ hline hmarked⟩
    · exact hafter l hl ⟨hheader _ hline hmarked, hheader l (by simp [hl]) hmark⟩

private theorem isConcept_iff {ls : List String} :
    IsConcept ls ↔ conceptForm.Sound ls ∧ ∃ l ∈ ls, IsMarked "Concept:" l := by
  have hopened : conceptForm.Opened ls ↔ ∀ before line, before ++ [line] <+: ls →
      ¬ (IsMarked "Concept:" line ∨ IsMarked "Behavior:" line) →
        ∃ l ∈ before, HasRest "Behavior:" l := by
    simp only [LineForm.Opened, exists_behavior_iff]
    rfl
  simp only [LineForm.sound_iff, concept_not_flawed_iff, hopened, LineForm.TitledOnce,
    exists_title_iff]
  constructor
  · rintro ⟨hone, haccepted, hactions, hopened⟩
    obtain ⟨hheader, honce, hmarked⟩ := one_header_iff.1 hone
    refine ⟨⟨fun l hl => ⟨hheader l hl, haccepted l hl⟩, fun l hl hmark => ?_,
      fun before line hinit hmark => ?_, honce⟩, hmarked⟩
    · exact hactions l hl (fun h => hmark (.inl h)) fun h => hmark (.inr h)
    · obtain ⟨l, hl, hbehavior⟩ :=
        hopened before line hinit (fun h => hmark (.inl h)) fun h => hmark (.inr h)
      exact ⟨l, hl, haccepted l (hinit.subset (by simp [hl])) hbehavior⟩
  · rintro ⟨⟨haccepted, hactions, hopened, honce⟩, hmarked⟩
    have hone := one_header_iff.2 ⟨fun l hl => (haccepted l hl).1, honce, hmarked⟩
    refine ⟨hone, fun l hl => (haccepted l hl).2, fun l hl hconcept hbehavior => ?_,
      fun before line hinit hconcept hbehavior => ?_⟩
    · exact hactions l hl (not_or.2 ⟨hconcept, hbehavior⟩)
    · obtain ⟨l, hl, hrest⟩ := hopened before line hinit (not_or.2 ⟨hconcept, hbehavior⟩)
      exact ⟨l, hl, hrest.isMarked⟩

/-! ## The records that are read -/

/-- A parser reads a text if its lines are accepted, and reads from it what they say. Otherwise it
tells the fault of the lines, which for a line at fault is the same whatever stands below it. -/
structure ReadsLines {α β : Type} (form : LineForm α) (parse : String → Except ScriptError β)
    (Accepts : List String → Prop) (Says : List String → β → Prop)
    (Faults : List String → ScriptError → Prop) (source : String) (ls : List String) : Prop where
  accepts : (∃ r, parse source = .ok r) ↔ Accepts ls
  reads : ∀ r, parse source = .ok r ↔ Says ls r
  faults : ∀ e, parse source = .error e ↔ Faults ls e
  early : ∀ more e, form.FirstFault ls e → parse (source ++ "\n" ++ more) = .error e

private theorem Grammar.Recognises.readsLines {α β : Type} {g : Grammar α} {form : LineForm α}
    (h : g.Recognises form) (htitle : ∀ l name, ¬ form.Title l name)
    {parse : String → Except ScriptError (List β)} (sectionOf : β ≃ Section α)
    (hparse : ∀ source, parse source = (g.read source).map fun r => r.2.map sectionOf.symm)
    (source : String) :
    ReadsLines form parse form.Sound (fun ls records => form.Laid ls none (records.map sectionOf))
      form.FirstFault source (lines source) where
  accepts := by
    rw [← h.exists_read_iff, hparse]
    cases g.read source with
    | error e => simp [Except.map]
    | ok r => simpa [Except.map] using ⟨r.1, r.2, rfl⟩
  reads r := by
    rw [hparse, ← h.read_eq_ok_iff]
    cases hread : g.read source with
    | error e => simp [Except.map]
    | ok read =>
      obtain ⟨title, sections⟩ := read
      have hnone : title = none := h.title_eq_none htitle (h.read_eq_ok_iff.1 hread)
      simp only [Except.map, Except.ok.injEq, Prod.mk.injEq, hnone, true_and]
      constructor
      · rintro rfl
        simp [Function.comp_def]
      · rintro rfl
        simp [Function.comp_def]
  faults e := by
    rw [hparse, ← h.read_eq_error_iff]
    cases g.read source <;> simp [Except.map]
  early more e hfault := by
    rw [hparse, h.early more hfault]
    rfl

end Script

open Script

def Step.equivSection : Step ≃ Section String where
  toFun s := ⟨s.pattern, s.actions⟩
  invFun s := ⟨s.head, s.actions⟩
  left_inv _ := rfl
  right_inv _ := rfl

def Behavior.equivSection : Behavior ≃ Section String where
  toFun b := ⟨b.pattern, b.actions⟩
  invFun s := ⟨s.head, s.actions⟩
  left_inv _ := rfl
  right_inv _ := rfl

def Hook.equivSection : Hook ≃ Section HookHead where
  toFun h := ⟨⟨h.phase, h.tags, h.selector⟩, h.actions⟩
  invFun s := ⟨s.head.phase, s.head.tags, s.head.selector, s.actions⟩
  left_inv _ := rfl
  right_inv _ := rfl

def Concept.IsSaidBy (ls : List String) (c : Concept) : Prop :=
  conceptForm.Laid ls (some c.name) (c.behaviors.map Behavior.equivSection)

/-- A header is missed when no line is at fault. -/
def Concept.IsFaultOf (ls : List String) (e : ScriptError) : Prop :=
  conceptForm.FirstFault ls e ∨ conceptForm.Sound ls ∧
    (∀ l ∈ ls, ¬ IsMarked "Concept:" l) ∧ e = .malformed "" .missingConcept

theorem Step.readsLines (source : String) : ReadsLines stepForm Step.parseAll AreSteps
    (fun ls steps => stepForm.Laid ls none (steps.map Step.equivSection)) stepForm.FirstFault
    source (lines source) := by
  have hform : stepForm.Sound = AreSteps := funext fun _ => propext sound_steps_iff
  rw [← hform]
  refine stepGrammar_recognises.readsLines (fun _ _ => id) Step.equivSection (fun source => ?_) source
  unfold Step.parseAll
  cases stepGrammar.read source <;> rfl

theorem Hook.readsLines (source : String) : ReadsLines hookForm Hook.parseAll AreHooks
    (fun ls hooks => hookForm.Laid ls none (hooks.map Hook.equivSection)) hookForm.FirstFault
    source (lines source) := by
  have hform : hookForm.Sound = AreHooks := funext fun _ => propext sound_hooks_iff
  rw [← hform]
  refine hookGrammar_recognises.readsLines (fun _ _ => id) Hook.equivSection (fun source => ?_) source
  unfold Hook.parseAll
  cases hookGrammar.read source <;> rfl

private theorem Concept.title_ne_none_iff {source : String} {title : Option String}
    {sections : List (Section String)}
    (hread : conceptGrammar.read source = .ok (title, sections)) :
    title ≠ none ↔ ∃ l ∈ lines source, IsMarked "Concept:" l := by
  have hsound := conceptGrammar_recognises.exists_read_iff.1 ⟨title, sections, hread⟩
  rw [conceptGrammar_recognises.title_ne_none_iff
    (conceptGrammar_recognises.read_eq_ok_iff.1 hread)]
  refine exists_congr fun l => and_congr_right fun hl => ?_
  rw [exists_title_iff]
  exact ⟨IsHeader.isMarked, (concept_not_flawed_iff.1 ((LineForm.sound_iff.1 hsound).1 l hl)).1⟩

theorem Concept.readsLines (source : String) : ReadsLines conceptForm Concept.parse IsConcept
    Concept.IsSaidBy Concept.IsFaultOf source (lines source) where
  accepts := by
    rw [isConcept_iff, ← conceptGrammar_recognises.exists_read_iff, Concept.parse]
    cases hread : conceptGrammar.read source with
    | error e => simp
    | ok read =>
      obtain ⟨title, sections⟩ := read
      rw [← Concept.title_ne_none_iff hread]
      cases title with
      | none => simp [fault]
      | some name => simp
  reads c := by
    rw [Concept.IsSaidBy, ← conceptGrammar_recognises.read_eq_ok_iff, Concept.parse]
    obtain ⟨name, behaviors⟩ := c
    cases hread : conceptGrammar.read source with
    | error e => simp
    | ok read =>
      obtain ⟨_ | name', sections⟩ := read
      · simp [fault]
      · simp only [Except.ok.injEq, Concept.mk.injEq, Prod.mk.injEq, Option.some.injEq]
        refine and_congr_right fun _ => ⟨?_, ?_⟩
        · rintro rfl
          simp [Function.comp_def, Behavior.equivSection]
        · rintro rfl
          simp [Function.comp_def, Behavior.equivSection]
  faults e := by
    rw [Concept.IsFaultOf, ← conceptGrammar_recognises.read_eq_error_iff,
      ← conceptGrammar_recognises.exists_read_iff, Concept.parse]
    cases hread : conceptGrammar.read source with
    | error e' => simp
    | ok read =>
      obtain ⟨title, sections⟩ := read
      have hnone : title = none ↔ ∀ l ∈ lines source, ¬ IsMarked "Concept:" l := by
        rw [← not_iff_not, ← ne_eq, Concept.title_ne_none_iff hread]
        push Not
        rfl
      rw [← hnone]
      cases title with
      | none => simp [fault, eq_comm]
      | some name => simp
  early more e hfault := by
    rw [Concept.parse, conceptGrammar_recognises.early more hfault]

/-- A text has its lines in one way, and steps, hooks and concepts are read from the lines of their
grammars, with nothing left out. -/
theorem definitions_read_their_lines (source : String) :
    ∃ ls, HasLines source.toList ls ∧ (∀ ls', HasLines source.toList ls' → ls' = ls) ∧
      ReadsLines stepForm Step.parseAll AreSteps
        (fun ls steps => stepForm.Laid ls none (steps.map Step.equivSection)) stepForm.FirstFault
        source ls ∧
      ReadsLines hookForm Hook.parseAll AreHooks
        (fun ls hooks => hookForm.Laid ls none (hooks.map Hook.equivSection)) hookForm.FirstFault
        source ls ∧
      ReadsLines conceptForm Concept.parse IsConcept Concept.IsSaidBy Concept.IsFaultOf
        source ls := by
  obtain ⟨ls, hlines, hunique⟩ := existsUnique_hasLines source
  obtain rfl := hasLines_iff.1 hlines
  exact ⟨_, hlines, hunique, Step.readsLines source, Hook.readsLines source,
    Concept.readsLines source⟩

end StepScript
