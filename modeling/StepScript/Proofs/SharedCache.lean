import StepScript.Proofs.JsonRecord
import StepScript.Proofs.MatchKey
import StepScript.Proofs.SafeErrand

/-!
Lookups that share a cache. They may be carried out one after the other or side by side, and some of
their changes may fail: each comes to what the matcher answers, only matches are stored, and what is
stored is not asked for again.
-/

set_option autoImplicit false
set_option relaxedAutoImplicit false

namespace StepScript

open FileTree Cache

structure Lookups (ι : Type) where
  patterns : ι → List String
  text : ι → String
  isPattern : ∀ i, ∀ p ∈ patterns i, p ≠ "" ∧ Matcher.IsLine p
  isLine : ∀ i, Matcher.IsLine (text i)
  /-- The hashes of different keys are different. -/
  apart : ∀ i j, fileName (Matcher.key (patterns i) (text i)) =
    fileName (Matcher.key (patterns j) (text j)) →
      Matcher.key (patterns i) (text i) = Matcher.key (patterns j) (text j)

namespace Lookups

variable {ι : Type} (w : Lookups ι) (find : Finder) (c : Cache) (scope : String)

def key (i : ι) : String := Matcher.key (w.patterns i) (w.text i)

def answer (i : ι) : Except Failure (Option Match) := find (w.patterns i) (w.text i)

/-- What a lookup does: the program of the matcher that remembers, over these files. -/
def program (i : ι) : Errand (Except Failure (Option Match)) :=
  (Errand.matcher.cached c Errand.files scope).find (w.patterns i) (w.text i)

def start (t : FileTree) : Crew ι (Except Failure (Option Match)) := ⟨t, w.program c scope⟩

/-- A temporary file may have any bytes, an entry those of a match that the matcher answers. -/
def IsGood (name : String) (bytes : ByteArray) : Prop :=
  (∃ key n, name = temporaryName key n) ∨ ∃ i found, name = fileName (w.key i) ∧
    w.answer find i = .ok (some found) ∧ bytes = (Json.Codec.encode found).indented.toUTF8

variable {w find c scope}

private theorem answer_eq_of_fileName {i j : ι} (h : fileName (w.key i) = fileName (w.key j)) :
    w.answer find i = w.answer find j := by
  have hkey : w.key i = w.key j := w.apart i j h
  obtain ⟨hpatterns, htext⟩ :=
    Matcher.key_injective_of_isLine (w.isPattern i) (w.isPattern j) (w.isLine i) (w.isLine j) hkey
  unfold answer
  rw [hpatterns, htext]

private theorem IsGood.entry {i : ι} {bytes : ByteArray}
    (h : w.IsGood find (fileName (w.key i)) bytes) :
    ∃ found, w.answer find i = .ok (some found) ∧ Json.decodeBytes? bytes = some found := by
  rcases h with ⟨key, n, hname⟩ | ⟨j, found, hname, hanswer, rfl⟩
  · exact absurd hname (fileName_ne_temporaryName _ key n)
  · rw [answer_eq_of_fileName hname]
    exact ⟨found, hanswer, Match.readsBack found⟩

private theorem safe_program (i : ι) (h : Hold) :
    (w.program c scope i).Safe find (c.directory scope) (w.IsGood find) h
      fun answer _ => answer = w.answer find i := by
  refine Errand.safe_find rfl (fun key n _ => .inl ⟨key, n, rfl⟩) ?_ ?_
  · exact fun found hfound => .inr ⟨i, found, rfl, hfound, rfl⟩
  · intro bytes found hgood hdecode
    obtain ⟨other, hanswer, hother⟩ := IsGood.entry hgood
    rw [hdecode] at hother
    cases hother
    exact hanswer

private theorem program_eq (i : ι) :
    ∃ next, w.program c scope i = .act (.read (c.pathOf scope (w.key i))) next ∧
      ∀ bytes found, Json.decodeBytes? bytes = some found →
        next (.ok bytes) = .done (.ok (some found)) := by
  refine ⟨_, rfl, fun bytes found hdecode => ?_⟩
  simp only [Errand.bind, hdecode, Errand.pure_eq]

/-! ## Invariants -/

/-- What holds however far the lookups have come: all files are good, and each lookup can be trusted
with a temporary file of its own. -/
structure IsSound (w : Lookups ι) (find : Finder) (dir : Path)
    (crew : Crew ι (Except Failure (Option Match))) (hold : ι → Hold) : Prop where
  tidy : crew.files.Tidy dir (w.IsGood find)
  stands : ∀ i, (hold i).Stands dir crew.files
  own : ∀ i j n, (hold i).number? = some n → (hold j).number? = some n → i = j
  safe : ∀ i, (crew.left i).Safe find dir (w.IsGood find) (hold i)
    fun answer _ => answer = w.answer find i

private theorem isSound_start {t : FileTree}
    (hstart : t.Tidy (c.directory scope) fun _ _ => False) :
    w.IsSound find (c.directory scope) (w.start c scope t) fun _ => .nothing where
  tidy := hstart.mono fun _ _ _ h => h.elim
  stands := fun _ => trivial
  own := nofun
  safe := fun i => safe_program i .nothing

private def IsStored (w : Lookups ι) (dir : Path) (t : FileTree) (i : ι) : Prop :=
  ∃ bytes, t.Has dir (fileName (w.key i)) bytes

variable {crew crew' : Crew ι (Except Failure (Option Match))} {dir : Path} {hold : ι → Hold}

private theorem IsSound.answer_eq {i : ι} {answer : Except Failure (Option Match)}
    (h : w.IsSound find dir crew hold) (hleft : crew.left i = .done answer) :
    answer = w.answer find i := by
  have hsafe := h.safe i
  rwa [hleft, Errand.safe_done_iff] at hsafe

private theorem IsSound.entry {i : ι} {bytes : ByteArray}
    (h : w.IsSound find (c.directory scope) crew hold)
    (hread : crew.files.read (c.pathOf scope (w.key i)) = .ok bytes) :
    w.IsStored (c.directory scope) crew.files i ∧
      ∃ found, w.answer find i = .ok (some found) ∧ Json.decodeBytes? bytes = some found := by
  have hhas := (h.tidy.read_iff (isOwnName_fileName (w.key i))).1 hread
  exact ⟨⟨bytes, hhas⟩, IsGood.entry (h.tidy.good_of_has (isOwnName_fileName (w.key i)) hhas)⟩

variable [DecidableEq ι]

private theorem IsSound.step {deed : ι × Deed} (h : w.IsSound find dir crew hold)
    (hstep : crew.Step find deed crew') :
    (∃ hold', w.IsSound find dir crew' hold') ∧
      ∀ i, w.IsStored dir crew.files i → w.IsStored dir crew'.files i := by
  cases hstep with
  | @deed i d next answer t hleft hgoes =>
    have hsafe := h.safe i
    rw [hleft, Errand.safe_act_iff] at hsafe
    obtain ⟨h', hmoves, hnext⟩ := hsafe crew.files answer t h.tidy (h.stands i) hgoes
    -- Nobody else has the number that the lookup has in its hands now.
    have hother (j : ι) (n : Nat) (hj : j ≠ i) (hn : (hold j).number? = some n) :
        h'.number? ≠ some n := by
      intro hn'
      rcases hmoves.number n hn' with hsame | hfresh
      · exact hj (h.own j i n hn hsame)
      · have hlt := (h.stands j).lt hn
        omega
    refine ⟨⟨Function.update hold i h', hmoves.tidy, fun j => ?_, fun j k n hj hk => ?_,
      fun j => ?_⟩, fun j hstored => ?_⟩
    · by_cases hj : j = i
      · subst hj
        rw [Function.update_self]
        exact hmoves.stands
      · rw [Function.update_of_ne hj]
        exact hmoves.other_stands (h.stands j) fun n hn hi => hj (h.own j i n hn hi)
    · by_cases hji : j = i <;> by_cases hki : k = i
      · rw [hji, hki]
      · rw [hji, Function.update_self] at hj
        rw [Function.update_of_ne hki] at hk
        exact absurd hj (hother k n hki hk)
      · rw [hki, Function.update_self] at hk
        rw [Function.update_of_ne hji] at hj
        exact absurd hk (hother j n hji hj)
      · rw [Function.update_of_ne hji] at hj
        rw [Function.update_of_ne hki] at hk
        exact h.own j k n hj hk
    · by_cases hj : j = i
      · subst hj
        simp only [Function.update_self]
        exact hnext
      · simp only [Function.update_of_ne hj]
        exact h.safe j
    · obtain ⟨bytes, hhas⟩ := hstored
      exact hmoves.entry _ bytes hhas

private theorem IsSound.runs {deeds : List (ι × Deed)} (h : w.IsSound find dir crew hold)
    (hruns : crew.Runs find deeds crew') : ∃ hold', w.IsSound find dir crew' hold' := by
  induction hruns generalizing hold with
  | refl => exact ⟨hold, h⟩
  | step hstep _ ih =>
    obtain ⟨⟨hold', hsound⟩, -⟩ := h.step hstep
    exact ih hsound

private theorem IsSound.left_of_step {i : ι} {deed : ι × Deed}
    (h : w.IsSound find (c.directory scope) crew hold)
    (hstored : w.IsStored (c.directory scope) crew.files i)
    (hleft : crew.left i = w.program c scope i ∨ ∃ answer, crew.left i = .done answer)
    (hstep : crew.Step find deed crew') :
    (∀ patterns text, deed ≠ (i, .ask patterns text)) ∧
      (crew'.left i = w.program c scope i ∨ ∃ answer, crew'.left i = .done answer) := by
  cases hstep with
  | @deed j d next answer t hj hgoes =>
    by_cases hji : i = j
    · subst hji
      rcases hleft with hprogram | ⟨answer, hdone⟩
      · obtain ⟨rest, hrest, hrecalls⟩ := program_eq i
        rw [hprogram, hrest] at hj
        cases hj
        obtain ⟨bytes, hhas⟩ := hstored
        have hown := isOwnName_fileName (w.key i)
        obtain ⟨found, -, hdecode⟩ := IsGood.entry (h.tidy.good_of_has hown hhas)
        have hread : crew.files.read (c.pathOf scope (w.key i)) = .ok bytes :=
          (h.tidy.read_iff hown).2 hhas
        refine ⟨nofun, .inr ⟨.ok (some found), ?_⟩⟩
        obtain ⟨hanswer, -⟩ := hgoes.read
        rw [hanswer, hread, hrecalls bytes found hdecode]
        exact Function.update_self i _ _
      · rw [hdone] at hj
        cases hj
    · refine ⟨fun _ _ hsame => hji (congrArg Prod.fst hsame).symm, ?_⟩
      simp only [Function.update_of_ne hji]
      exact hleft

private theorem IsSound.not_asked {i : ι} {deeds : List (ι × Deed)}
    (h : w.IsSound find (c.directory scope) crew hold)
    (hstored : w.IsStored (c.directory scope) crew.files i)
    (hleft : crew.left i = w.program c scope i ∨ ∃ answer, crew.left i = .done answer)
    (hruns : crew.Runs find deeds crew') (patterns : List String) (text : String) :
    (i, Deed.ask patterns text) ∉ deeds := by
  induction hruns generalizing hold with
  | refl => nofun
  | step hstep _ ih =>
    obtain ⟨⟨hold', hsound⟩, hkept⟩ := h.step hstep
    obtain ⟨hne, hleft'⟩ := h.left_of_step hstored hleft hstep
    rw [List.mem_cons, not_or]
    exact ⟨(hne patterns text).symm, ih hsound (hkept i hstored) hleft'⟩

/-- Lookups that share a cache come to what the matcher answers, and can always be brought to their
end; only matches that the matcher answers are stored, and a lookup that starts when its match is
stored does not ask. -/
theorem runs_transparent {t : FileTree} (hstart : t.Tidy (c.directory scope) fun _ _ => False)
    {deeds : List (ι × Deed)} (hruns : (w.start c scope t).Runs find deeds crew) :
    (∀ i answer, crew.left i = .done answer → answer = find (w.patterns i) (w.text i)) ∧
    (∀ i, ∃ more crew', crew.Runs find more crew' ∧ (∀ deed ∈ more, deed.1 = i) ∧
      crew'.left i = .done (find (w.patterns i) (w.text i))) ∧
    (∀ i bytes, crew.files.read (c.pathOf scope (w.key i)) = .ok bytes →
      ∃ found, find (w.patterns i) (w.text i) = .ok (some found) ∧
        Json.decodeBytes? bytes = some found) ∧
    ∀ i bytes, crew.files.read (c.pathOf scope (w.key i)) = .ok bytes →
      crew.left i = w.program c scope i → ∀ more crew', crew.Runs find more crew' →
        ∀ patterns text, (i, Deed.ask patterns text) ∉ more := by
  obtain ⟨hold, hsound⟩ := (isSound_start hstart).runs hruns
  refine ⟨fun i answer hleft => hsound.answer_eq hleft, fun i => ?_,
    fun i bytes hread => (hsound.entry hread).2, ?_⟩
  · obtain ⟨more, hmore, hown⟩ := crew.runs_finish find i
    obtain ⟨hold', hsound'⟩ := hsound.runs hmore
    have hdone := crew.finish_left find i
    refine ⟨more, _, hmore, hown, ?_⟩
    rw [hdone]
    exact congrArg Errand.done (hsound'.answer_eq hdone)
  · intro i bytes hread hleft more crew' hmore patterns text
    exact hsound.not_asked (hsound.entry hread).1 (.inl hleft) hmore patterns text

/-! ## Two lookups of the same -/

def twice : Lookups Bool where
  patterns _ := ["Log in"]
  text _ := "I log in"
  isPattern := by simp [Matcher.IsLine]
  isLine := by simp [Matcher.IsLine]
  apart _ _ _ := rfl

def alwaysLogIn : Finder := fun _ _ => .ok (some ⟨"Log in", Dict.empty⟩)

def twoLookups : Crew Bool (Except Failure (Option Match)) :=
  twice.start ⟨⟨"cache"⟩⟩ "step-agent" ⟨.directory [], [], 0⟩

set_option maxRecDepth 20000 in
private theorem isOk_read_finish :
    ((twoLookups.finish alwaysLogIn true).files.read
      (Cache.pathOf ⟨⟨"cache"⟩⟩ "step-agent" (twice.key false))).isOk = true := by
  decide +kernel

theorem twoLookups_transparent :
    (∃ bytes, (twoLookups.finish alwaysLogIn true).files.read
      (Cache.pathOf ⟨⟨"cache"⟩⟩ "step-agent" (twice.key false)) = .ok bytes) ∧
    ∀ more crew', (twoLookups.finish alwaysLogIn true).Runs alwaysLogIn more crew' →
      ∀ patterns text, (false, Deed.ask patterns text) ∉ more := by
  have hstart : Tidy ⟨.directory [], [], 0⟩ (Cache.directory ⟨⟨"cache"⟩⟩ "step-agent")
      fun _ _ => False :=
    tidy_of_none fun place name _ => by
      cases place <;> rfl
  obtain ⟨deeds, hruns, -⟩ := twoLookups.runs_finish alwaysLogIn true
  obtain ⟨-, -, -, hquiet⟩ := runs_transparent hstart hruns
  have hleft : (twoLookups.finish alwaysLogIn true).left false =
      twice.program ⟨⟨"cache"⟩⟩ "step-agent" false := rfl
  have hok := isOk_read_finish
  cases hread : (twoLookups.finish alwaysLogIn true).files.read
      (Cache.pathOf ⟨⟨"cache"⟩⟩ "step-agent" (twice.key false)) with
  | error e =>
    rw [hread] at hok
    cases hok
  | ok bytes => exact ⟨⟨bytes, rfl⟩, hquiet false bytes hread hleft⟩

end Lookups
end StepScript
