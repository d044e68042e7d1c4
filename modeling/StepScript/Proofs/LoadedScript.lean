import Mathlib.Data.List.Nodup
import StepScript.Proofs.CacheStore
import StepScript.Proofs.Recording
import StepScript.Proofs.Reprinting
import StepScript.Script.Places

/-!
What a script is like that has been loaded, from whatever files. What its definitions say can stand
in lines, no two of its concepts have one name, and the selector of each hook is that of its tags.
Each file that is read keeps this so, or the reading ends; and where all files can be read, it ends
at the first concept whose name is taken.
-/

set_option autoImplicit false
set_option relaxedAutoImplicit false

namespace StepScript

open Script Text

/-! ## Definitions in order -/

structure IsWording (s : String) : Prop where
  phrase : IsPhrase s
  ne : s ≠ ""

structure Step.IsWellFormed (s : Step) : Prop where
  pattern : IsWording s.pattern
  actions : ∀ a ∈ s.actions, a.IsSayable

structure Behavior.IsWellFormed (b : Behavior) : Prop where
  pattern : IsWording b.pattern
  actions : ∀ a ∈ b.actions, a.IsSayable

structure Concept.IsWellFormed (c : Concept) : Prop where
  name : IsWording c.name
  name_colon : ':' ∉ c.name.toList
  behaviors : ∀ b ∈ c.behaviors, b.IsWellFormed

structure Hook.IsWellFormed (h : Hook) : Prop where
  selector : Selector.parse h.tags = .ok h.selector
  actions : ∀ a ∈ h.actions, a.IsSayable

structure Script.IsWellFormed (script : Script) : Prop where
  steps : ∀ s ∈ script.steps, s.IsWellFormed
  concepts : ∀ c ∈ script.concepts, c.IsWellFormed
  names : (script.concepts.map Concept.name).Nodup
  hooks : ∀ h ∈ script.hooks, h.IsWellFormed

/-! ## What parsers read -/

private theorem Script.Follows.isWording {source marker l text : String} (h : Follows marker l text)
    (hl : l ∈ lines source) (hne : text ≠ "") : IsWording text :=
  ⟨h.isPhrase (isPhrase_of_mem_lines hl), hne⟩

namespace Script

variable {α : Type} {g : Grammar α} {form : LineForm α} {source : String} {title : Option String}
  {sections : List (Section α)} {s : Section α}

private theorem Grammar.Recognises.exists_opening (h : g.Recognises form)
    (hlaid : form.Laid (lines source) title sections) (hs : s ∈ sections) :
    ∃ l ∈ lines source, form.Opening l s.head := by
  have hmem : Saying.opening s.head ∈ sections.flatMap Section.sayings :=
    List.mem_flatMap.2 ⟨s, hs, List.mem_cons_self⟩
  obtain ⟨l, hl, hsays⟩ := (h.mem_sayings_iff_of_laid hlaid rfl).1 hmem
  exact ⟨l, hl, LineForm.says_opening_iff.1 hsays⟩

private theorem Grammar.Recognises.isSayable (h : g.Recognises form)
    (hlaid : form.Laid (lines source) title sections) (hs : s ∈ sections) :
    ∀ a ∈ s.actions, a.IsSayable := by
  intro a ha
  have hmem : Saying.action a ∈ sections.flatMap Section.sayings :=
    List.mem_flatMap.2 ⟨s, hs, List.mem_cons_of_mem _ (List.mem_map.2 ⟨a, ha, rfl⟩)⟩
  obtain ⟨l, hl, hsays⟩ := (h.mem_sayings_iff_of_laid hlaid rfl).1 hmem
  cases hsays with
  | action _ hreads => exact hreads.isSayable (isPhrase_of_mem_lines hl).noBreak

end Script

private theorem Step.isWellFormed_of_parseAll {source : String} {steps : List Step}
    (h : Step.parseAll source = .ok steps) : ∀ s ∈ steps, s.IsWellFormed := by
  intro s hs
  have hlaid := ((Step.readsLines source).reads steps).1 h
  have hs' := List.mem_map_of_mem (f := Step.equivSection) hs
  obtain ⟨l, hl, hfollows, hne⟩ := stepGrammar_recognises.exists_opening hlaid hs'
  exact ⟨hfollows.isWording hl hne, stepGrammar_recognises.isSayable hlaid hs'⟩

private theorem Hook.isWellFormed_of_parseAll {source : String} {hooks : List Hook}
    (h : Hook.parseAll source = .ok hooks) : ∀ k ∈ hooks, k.IsWellFormed := by
  intro k hk
  have hlaid := ((Hook.readsLines source).reads hooks).1 h
  have hk' := List.mem_map_of_mem (f := Hook.equivSection) hk
  obtain ⟨l, -, -, hselector⟩ := hookGrammar_recognises.exists_opening hlaid hk'
  exact ⟨Selector.parse_eq_ok_iff_isSaidBy.2 hselector,
    hookGrammar_recognises.isSayable hlaid hk'⟩

private theorem Concept.isWellFormed_of_parse {source : String} {c : Concept}
    (h : Concept.parse source = .ok c) : c.IsWellFormed := by
  have hlaid : conceptForm.Laid _ _ _ := ((Concept.readsLines source).reads c).1 h
  obtain ⟨l, hl, hfollows, hname⟩ := (conceptGrammar_recognises.title_iff_of_laid hlaid).1 rfl
  have hne : c.name ≠ "" := fun hempty => hname _ (.empty hempty)
  refine ⟨hfollows.isWording hl hne, fun hcolon => hname _ (.colon hcolon), fun b hb => ?_⟩
  have hb' := List.mem_map_of_mem (f := Behavior.equivSection) hb
  obtain ⟨l', hl', hfollows', hne'⟩ := conceptGrammar_recognises.exists_opening hlaid hb'
  exact ⟨hfollows'.isWording hl' hne', conceptGrammar_recognises.isSayable hlaid hb'⟩

/-! ## Reading files -/

namespace ScriptReader

variable {σ α : Type} {r : ScriptReader α} {P : List α → Prop} {files : FileAccess (StateM σ)}
  {world world' : σ} {result : List α}

/-- A property of what has been read that holds at first and that every file keeps. -/
structure Keeps (r : ScriptReader α) (P : List α → Prop) : Prop where
  nil : P []
  add : ∀ {found source found'}, P found → r.add found source = .ok found' → P found'

namespace Keeps

private theorem readEach (h : r.Keeps P) {found : List α} {paths : List Path} (hfound : P found)
    (hrun : (r.readEach files found paths).run world = (.ok result, world')) : P result := by
  induction paths generalizing found world with
  | nil =>
    obtain rfl : found = result := Except.ok.inj (Prod.mk.inj hrun).1
    exact hfound
  | cons path paths ih =>
    rcases hread : (files.readText path).run world with ⟨text, world₁⟩
    unfold ScriptReader.readEach at hrun
    rw [run_bind_of hread] at hrun
    cases text with
    | error e => cases hrun
    | ok source =>
      cases hadd : r.add found source with
      | error e =>
        simp only [hadd] at hrun
        cases hrun
      | ok found' =>
        simp only [hadd] at hrun
        exact ih (h.add hfound hadd) hrun

private theorem load (h : r.Keeps P) {path : Path}
    (hrun : (r.load files path).run world = (.ok result, world')) : P result := by
  rcases hfiles : (r.filesOf files path).run world with ⟨found, world₁⟩
  unfold ScriptReader.load at hrun
  rw [run_bind_of hfiles] at hrun
  cases found with
  | error e => cases hrun
  | ok paths => exact h.readEach h.nil hrun

private theorem loadAt (h : r.Keeps P) {place : Option Path}
    (hrun : (r.loadAt files place).run world = (.ok result, world')) : P result := by
  cases place with
  | none =>
    obtain rfl : [] = result := Except.ok.inj (Prod.mk.inj hrun).1
    exact h.nil
  | some path => exact h.load hrun

end Keeps

private theorem keeps_of_append {parse : String → Except ScriptError (List α)} {Q : α → Prop}
    (hadd : ∀ found source, r.add found source = (parse source).map (found ++ ·))
    (hparse : ∀ {source more}, parse source = .ok more → ∀ x ∈ more, Q x) :
    r.Keeps fun found => ∀ x ∈ found, Q x where
  nil := nofun
  add {found source found'} hfound hadded := by
    rw [hadd] at hadded
    cases hsource : parse source with
    | error e =>
      rw [hsource] at hadded
      cases hadded
    | ok more =>
      rw [hsource] at hadded
      obtain rfl : found ++ more = found' := Except.ok.inj hadded
      exact List.forall_mem_append.2 ⟨hfound, hparse hsource⟩

private theorem steps_keeps : steps.Keeps fun found => ∀ s ∈ found, s.IsWellFormed :=
  keeps_of_append (fun _ _ => rfl) Step.isWellFormed_of_parseAll

private theorem hooks_keeps : hooks.Keeps fun found => ∀ h ∈ found, h.IsWellFormed :=
  keeps_of_append (fun _ _ => rfl) Hook.isWellFormed_of_parseAll

theorem concepts_add_of_parse {source : String} {c : Concept} (h : Concept.parse source = .ok c)
    (found : List Concept) : concepts.add found source =
      if c.name ∈ found.map Concept.name then .error (.duplicateConcept c.name)
      else .ok (found ++ [c]) := by
  have hany : (found.any fun other => other.name == c.name) = true ↔
      c.name ∈ found.map Concept.name := by
    simp
  simp only [concepts, h, hany]

theorem nodup_names_append {found : List Concept} {c : Concept}
    (h : (found.map Concept.name).Nodup) (hnew : c.name ∉ found.map Concept.name) :
    ((found ++ [c]).map Concept.name).Nodup := by
  rw [List.map_append, List.map_singleton, ← List.concat_eq_append]
  exact List.Nodup.concat hnew h

private theorem concepts_keeps : concepts.Keeps fun found =>
    (∀ c ∈ found, c.IsWellFormed) ∧ (found.map Concept.name).Nodup where
  nil := ⟨nofun, List.nodup_nil⟩
  add {found source found'} hfound hadded := by
    obtain ⟨hall, hnames⟩ := hfound
    cases hparse : Concept.parse source with
    | error e => simp [concepts, hparse] at hadded
    | ok c =>
      rw [concepts_add_of_parse hparse] at hadded
      split at hadded
      next => cases hadded
      next hnew =>
        obtain rfl : found ++ [c] = found' := Except.ok.inj hadded
        constructor
        · have hc := Concept.isWellFormed_of_parse hparse
          exact List.forall_mem_append.2 ⟨hall, List.forall_mem_singleton.2 hc⟩
        · exact nodup_names_append hnames hnew

/-! ## Names that are taken -/

inductive ReadsTexts (files : FileAccess (StateM σ)) :
    List Path → σ → List String → σ → Prop
  | nil (world : σ) : ReadsTexts files [] world [] world
  | cons {path : Path} {paths : List Path} {source : String} {sources : List String}
      {world world₁ world₂ : σ} (hread : (files.readText path).run world = (.ok source, world₁))
      (hrest : ReadsTexts files paths world₁ sources world₂) :
      ReadsTexts files (path :: paths) world (source :: sources) world₂

private theorem run_readEach_concepts {paths : List Path} {sources : List String}
    {found more : List Concept} (hreads : ReadsTexts files paths world sources world')
    (hparse : List.Forall₂ (fun source c => Concept.parse source = .ok c) sources more)
    (hfound : (found.map Concept.name).Nodup)
    (htaken : ¬ ((found ++ more).map Concept.name).Nodup) :
    ∃ before c after world₁, more = before ++ c :: after ∧
      ((found ++ before).map Concept.name).Nodup ∧
      c.name ∈ (found ++ before).map Concept.name ∧
      (concepts.readEach files found paths).run world =
        (.error (.duplicateConcept c.name), world₁) := by
  induction hreads generalizing found more with
  | nil world =>
    cases hparse
    rw [List.append_nil] at htaken
    exact absurd hfound htaken
  | @cons path paths source sources world world₁ world₂ hread _ ih =>
    obtain ⟨c, rest, hc, hrest, rfl⟩ := List.forall₂_cons_left_iff.1 hparse
    have hadd := concepts_add_of_parse hc found
    unfold readEach
    rw [run_bind_of hread]
    by_cases hname : c.name ∈ found.map Concept.name
    · rw [if_pos hname] at hadd
      refine ⟨[], c, rest, world₁, rfl, by rwa [List.append_nil], by rwa [List.append_nil], ?_⟩
      simp only [hadd]
      rfl
    · rw [if_neg hname] at hadd
      have hfound' := nodup_names_append hfound hname
      have htaken' : ¬ ((found ++ [c] ++ rest).map Concept.name).Nodup := by
        rwa [List.append_assoc, List.singleton_append]
      obtain ⟨before, c', after, world₃, rfl, hbefore, hmem, hrun⟩ := ih hrest hfound' htaken'
      rw [List.append_assoc, List.singleton_append] at hbefore hmem
      refine ⟨c :: before, c', after, world₃, rfl, hbefore, hmem, ?_⟩
      simp only [hadd]
      exact hrun

end ScriptReader

/-! ## Loading -/

namespace ScriptPlaces

variable {σ : Type} {places : ScriptPlaces} {files : FileAccess (StateM σ)} {world world' : σ}

private theorem loadAt_of_load {script : Script}
    (h : (places.load files).run world = (.ok script, world')) : ∃ world₁ world₂,
      (ScriptReader.steps.loadAt files places.steps).run world = (.ok script.steps, world₁) ∧
      (ScriptReader.concepts.loadAt files places.concepts).run world₁ =
        (.ok script.concepts, world₂) ∧
      (ScriptReader.hooks.loadAt files places.hooks).run world₂ = (.ok script.hooks, world') := by
  rcases hsteps : (ScriptReader.steps.loadAt files places.steps).run world with ⟨steps, world₁⟩
  unfold load at h
  rw [run_bind_of hsteps] at h
  cases steps with
  | error e => cases h
  | ok steps =>
    rcases hconcepts : (ScriptReader.concepts.loadAt files places.concepts).run world₁ with
      ⟨concepts, world₂⟩
    simp only at h
    rw [run_bind_of hconcepts] at h
    cases concepts with
    | error e => cases h
    | ok concepts =>
      rcases hhooks : (ScriptReader.hooks.loadAt files places.hooks).run world₂ with
        ⟨hooks, world₃⟩
      simp only at h
      rw [run_bind_of hhooks] at h
      cases hooks with
      | error e => cases h
      | ok hooks =>
        obtain ⟨hscript, rfl⟩ := Prod.mk.inj h
        obtain rfl := Except.ok.inj hscript
        exact ⟨world₁, world₂, rfl, hconcepts, hhooks⟩

private theorem isWellFormed_of_load {script : Script}
    (h : (places.load files).run world = (.ok script, world')) : script.IsWellFormed := by
  obtain ⟨world₁, world₂, hsteps, hconcepts, hhooks⟩ := loadAt_of_load h
  obtain ⟨hall, hnames⟩ := ScriptReader.concepts_keeps.loadAt hconcepts
  exact ⟨ScriptReader.steps_keeps.loadAt hsteps, hall, hnames,
    ScriptReader.hooks_keeps.loadAt hhooks⟩

private theorem run_load_of_taken {steps : List Step} {path : Path} {paths : List Path}
    {sources : List String} {concepts : List Concept} {world₁ world₂ world₃ : σ}
    (hsteps : (ScriptReader.steps.loadAt files places.steps).run world = (.ok steps, world₁))
    (hplace : places.concepts = some path)
    (hpaths : (ScriptReader.concepts.filesOf files path).run world₁ = (.ok paths, world₂))
    (hreads : ScriptReader.ReadsTexts files paths world₂ sources world₃)
    (hparse : List.Forall₂ (fun source c => Concept.parse source = .ok c) sources concepts)
    (htaken : ¬ (concepts.map Concept.name).Nodup) :
    ∃ before c after world', concepts = before ++ c :: after ∧
      (before.map Concept.name).Nodup ∧ c.name ∈ before.map Concept.name ∧
      (places.load files).run world = (.error (.duplicateConcept c.name), world') := by
  have hnil : (([] : List Concept).map Concept.name).Nodup := List.nodup_nil
  obtain ⟨before, c, after, world', hconcepts, hbefore, hmem, hrun⟩ :=
    ScriptReader.run_readEach_concepts hreads hparse hnil htaken
  refine ⟨before, c, after, world', hconcepts, hbefore, hmem, ?_⟩
  have hload : (ScriptReader.concepts.loadAt files places.concepts).run world₁ =
      (.error (.duplicateConcept c.name), world') := by
    rw [hplace, ScriptReader.loadAt, ScriptReader.load, run_bind_of hpaths]
    exact hrun
  unfold load
  rw [run_bind_of hsteps]
  simp only
  rw [run_bind_of hload]
  rfl

/-- Whatever stands in the files, the script that is loaded from them is well formed. And where the
steps can be loaded and each file of concepts holds one, but some name is given twice, the concept
is told that is the first one to have the name of another before it. -/
theorem load_isWellFormed (places : ScriptPlaces) (files : FileAccess (StateM σ)) (world : σ) :
    (∀ script world', (places.load files).run world = (.ok script, world') →
      script.IsWellFormed) ∧
    ∀ steps path paths sources concepts world₁ world₂ world₃,
      (ScriptReader.steps.loadAt files places.steps).run world = (.ok steps, world₁) →
      places.concepts = some path →
      (ScriptReader.concepts.filesOf files path).run world₁ = (.ok paths, world₂) →
      ScriptReader.ReadsTexts files paths world₂ sources world₃ →
      List.Forall₂ (fun source c => Concept.parse source = .ok c) sources concepts →
      ¬ (concepts.map Concept.name).Nodup →
      ∃ before c after world', concepts = before ++ c :: after ∧
        (before.map Concept.name).Nodup ∧ c.name ∈ before.map Concept.name ∧
        (places.load files).run world = (.error (.duplicateConcept c.name), world') := by
  refine ⟨fun script world' => isWellFormed_of_load, ?_⟩
  intro steps path paths sources concepts world₁ world₂ world₃
  exact run_load_of_taken

def shelf (texts : List String) : FileAccess (StateM Unit) where
  read path := return match path.text, texts with
    | "a.steps", _ => .ok "Step: Log in\nlogin: as ann".toUTF8
    | "a.hooks", _ => .ok "Before: @ui\nopen: home".toUTF8
    | "concepts/a.concept", text :: _ => .ok text.toUTF8
    | "concepts/b.concept", _ :: text :: _ => .ok text.toUTF8
    | _, _ => .error .notFound
  kind? path := return some (if path.text = "concepts" then .directory else .file)
  entries _ := return .error .notFound
  outline _ := return .ok (.directory [("a.concept", .file), ("b.concept", .file)])
  makeDirectory _ := return .error .notFound
  create _ := return .error .notFound
  write _ _ := return .error .notFound
  sync _ := return .error .notFound
  rename _ _ := return .error .notFound
  remove _ := return .error .notFound
  freshToken := return ""

private theorem filesOf_shelf (texts : List String) :
    (ScriptReader.concepts.filesOf (shelf texts) ⟨"concepts"⟩).run () =
      (.ok [⟨"concepts/a.concept"⟩, ⟨"concepts/b.concept"⟩], ()) := by
  have hfiles : Outline.filesIn "concept" ⟨"concepts"⟩ [("a.concept", .file), ("b.concept", .file)] =
      [("a.concept", [⟨"concepts/a.concept"⟩]), ("b.concept", [⟨"concepts/b.concept"⟩])] := by
    decide +kernel
  have hpaths : Outline.filesAt "concept" ⟨"concepts"⟩
      (.directory [("a.concept", .file), ("b.concept", .file)]) =
        [⟨"concepts/a.concept"⟩, ⟨"concepts/b.concept"⟩] := by
    rw [Outline.filesAt, hfiles, Outline.sorted, List.mergeSort_of_pairwise (by decide)]
    rfl
  have hkind : ((shelf texts).kind? ⟨"concepts"⟩).run () = (some .directory, ()) := rfl
  have houtline : ((shelf texts).outline ⟨"concepts"⟩).run () =
      (.ok (.directory [("a.concept", .file), ("b.concept", .file)]), ()) := rfl
  unfold ScriptReader.filesOf
  rw [run_bind_of hkind]
  simp only
  rw [run_bind_of houtline, ← hpaths]
  rfl

def loginTexts : List String :=
  ["Concept: login\nBehavior: as [[user]]\ntype(field): [[user]]",
    "Concept: login\nBehavior: at once\ntype: ann"]

def loginConcepts : List Concept :=
  [⟨"login", [⟨"as [[user]]", [⟨"type", "[[user]]", some "field"⟩]⟩]⟩,
    ⟨"login", [⟨"at once", [⟨"type", "ann", none⟩]⟩]⟩]

theorem load_isWellFormed_shelf :
    (∃ script, (load ⟨some ⟨"a.steps"⟩, some ⟨"concepts/a.concept"⟩, some ⟨"a.hooks"⟩⟩
        (shelf loginTexts)).run () = (.ok script, ()) ∧
      script.concepts.map Concept.name = ["login"] ∧ script.IsWellFormed) ∧
    (load ⟨some ⟨"a.steps"⟩, some ⟨"concepts"⟩, some ⟨"a.hooks"⟩⟩ (shelf loginTexts)).run () =
      (.error (.duplicateConcept "login"), ()) := by
  have of_fst {α : Type} {x : StateM Unit α} {a : α} (h : (x.run ()).1 = a) : x.run () = (a, ()) :=
    Prod.ext h (Subsingleton.elim _ _)
  constructor
  · have hrun : (load ⟨some ⟨"a.steps"⟩, some ⟨"concepts/a.concept"⟩, some ⟨"a.hooks"⟩⟩
        (shelf loginTexts)).run () = (.ok ⟨[⟨"Log in", [⟨"login", "as ann", none⟩]⟩],
          loginConcepts.take 1, [⟨.before, "@ui", .tag "@ui", [⟨"open", "home", none⟩]⟩]⟩, ()) :=
      of_fst (by decide +kernel)
    exact ⟨_, hrun, rfl, (load_isWellFormed _ _ ()).1 _ () hrun⟩
  · have hsteps : (ScriptReader.steps.loadAt (shelf loginTexts) (some ⟨"a.steps"⟩)).run () =
        (.ok [⟨"Log in", [⟨"login", "as ann", none⟩]⟩], ()) := of_fst (by decide +kernel)
    have hreads : ScriptReader.ReadsTexts (shelf loginTexts)
        [⟨"concepts/a.concept"⟩, ⟨"concepts/b.concept"⟩] () loginTexts () := by
      refine .cons (of_fst ?_) (.cons (of_fst ?_) (.nil ()))
      · decide +kernel
      · decide +kernel
    have hparse : List.Forall₂ (fun source c => Concept.parse source = .ok c) loginTexts
        loginConcepts := by
      refine .cons ?_ (.cons ?_ .nil)
      · decide +kernel
      · decide +kernel
    obtain ⟨before, c, after, world', hconcepts, -, -, hrun⟩ := (load_isWellFormed
      ⟨some ⟨"a.steps"⟩, some ⟨"concepts"⟩, some ⟨"a.hooks"⟩⟩ _ ()).2 _ _ _ _ _ _ _ _ hsteps rfl
        (filesOf_shelf _) hreads hparse (by decide)
    have hall : ∀ c ∈ loginConcepts, c.name = "login" := by decide
    have hname : c.name = "login" := hall c (by simp [hconcepts])
    rw [hrun, hname]

end ScriptPlaces
end StepScript
