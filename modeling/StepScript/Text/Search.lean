/-!
Cutting a list of characters at the first or the last place where something stands. Each cut gives
the part before and the part after; what stood at the place is in neither.
-/

set_option autoImplicit false
set_option relaxedAutoImplicit false

namespace StepScript.Text

/-- The parts before and after the first place where `mark` stands. -/
def cutAtFirst (mark : List Char) : List Char → Option (List Char × List Char)
  | [] => if mark.isEmpty then some ([], []) else none
  | c :: cs =>
    if mark.isPrefixOf (c :: cs) then some ([], (c :: cs).drop mark.length)
    else (cutAtFirst mark cs).map fun parts => (c :: parts.1, parts.2)

/-- The parts before and after the last place where the character `mark` stands. -/
def cutAtLast (mark : Char) : List Char → Option (List Char × List Char)
  | [] => none
  | c :: cs =>
    match cutAtLast mark cs with
    | some parts => some (c :: parts.1, parts.2)
    | none => if c = mark then some ([], cs) else none

/-- What follows `mark` when a list of characters starts with it. -/
def afterMark (mark cs : List Char) : Option (List Char) :=
  if mark.isPrefixOf cs then some (cs.drop mark.length) else none

/-- The pieces of a list of characters between the places where `mark` stands, at least one. -/
def splitAtEach (mark : Char) : List Char → List (List Char)
  | [] => [[]]
  | c :: cs =>
    if c = mark then [] :: splitAtEach mark cs
    else
      match splitAtEach mark cs with
      | [] => [[c]]
      | piece :: pieces => (c :: piece) :: pieces

/-- The two parts and the mark between them make up the whole. -/
theorem eq_append_of_cutAtFirst {mark cs before after : List Char}
    (h : cutAtFirst mark cs = some (before, after)) : cs = before ++ mark ++ after := by
  induction cs generalizing before with
  | nil =>
    unfold cutAtFirst at h
    split at h
    · simp_all
    · simp at h
  | cons c cs ih =>
    unfold cutAtFirst at h
    split at h
    next hp =>
      obtain ⟨rest, hr⟩ := List.isPrefixOf_iff_prefix.1 hp
      simp only [Option.some.injEq, Prod.mk.injEq] at h
      obtain ⟨rfl, rfl⟩ := h
      simp [← hr]
    next =>
      obtain ⟨parts, hparts, heq⟩ := Option.map_eq_some_iff.1 h
      simp only [Prod.mk.injEq] at heq
      obtain ⟨rfl, rfl⟩ := heq
      simpa using ih hparts

theorem afterMark_eq_some_iff {mark cs rest : List Char} :
    afterMark mark cs = some rest ↔ cs = mark ++ rest := by
  unfold afterMark
  constructor
  · intro h
    split at h
    next hp =>
      obtain ⟨rest', rfl⟩ := List.isPrefixOf_iff_prefix.1 hp
      simpa using h
    next => cases h
  · rintro rfl
    rw [if_pos (List.isPrefixOf_iff_prefix.2 (List.prefix_append mark rest)), List.drop_left]

theorem afterMark_eq_none_iff {mark cs : List Char} :
    afterMark mark cs = none ↔ ¬ mark <+: cs := by
  simp [afterMark]

theorem cutAtFirst_singleton (c : Char) {before : List Char} (h : c ∉ before)
    (after : List Char) : cutAtFirst [c] (before ++ c :: after) = some (before, after) := by
  induction before with
  | nil => simp [cutAtFirst]
  | cons b before ih =>
    have hb : c ≠ b := fun hb => h (hb ▸ List.mem_cons_self)
    have hrest := ih fun hmem => h (List.mem_cons_of_mem b hmem)
    simp [cutAtFirst, hb, hrest]

theorem cutAtFirst_singleton_of_not_mem {c : Char} {cs : List Char} (h : c ∉ cs) :
    cutAtFirst [c] cs = none := by
  induction cs with
  | nil => simp [cutAtFirst]
  | cons b cs ih =>
    have hb : c ≠ b := fun hb => h (hb ▸ List.mem_cons_self)
    have hrest := ih fun hmem => h (List.mem_cons_of_mem b hmem)
    simp [cutAtFirst, hb, hrest]

theorem cutAtLast_of_not_mem {mark : Char} {cs : List Char} (h : mark ∉ cs) :
    cutAtLast mark cs = none := by
  induction cs with
  | nil => rfl
  | cons c cs ih =>
    have hc : c ≠ mark := fun hc => h (hc ▸ List.mem_cons_self)
    have hcs : mark ∉ cs := fun hcs => h (List.mem_cons_of_mem c hcs)
    simp [cutAtLast, ih hcs, hc]

theorem cutAtLast_append {mark : Char} (before : List Char) {after : List Char} (h : mark ∉ after) :
    cutAtLast mark (before ++ mark :: after) = some (before, after) := by
  induction before with
  | nil => simp [cutAtLast, cutAtLast_of_not_mem h]
  | cons c before ih => simp [cutAtLast, ih]

theorem eq_append_of_cutAtLast {mark : Char} {cs before after : List Char}
    (h : cutAtLast mark cs = some (before, after)) :
    cs = before ++ mark :: after ∧ mark ∉ after := by
  have hmem : mark ∈ cs := Decidable.byContradiction fun hmem => by
    rw [cutAtLast_of_not_mem hmem] at h
    cases h
  obtain ⟨last, first, hcs, hlast⟩ := List.eq_append_cons_of_mem (List.mem_reverse.2 hmem)
  have hsplit : cs = first.reverse ++ mark :: last.reverse := by
    rw [← List.reverse_reverse cs, hcs]
    simp
  have hnone : mark ∉ last.reverse := fun hin => hlast (List.mem_reverse.1 hin)
  rw [hsplit, cutAtLast_append _ hnone] at h
  cases h
  exact ⟨hsplit, hnone⟩

theorem splitAtEach_of_not_mem {mark : Char} {cs : List Char} (h : mark ∉ cs) :
    splitAtEach mark cs = [cs] := by
  induction cs with
  | nil => rfl
  | cons c cs ih =>
    have hc : c ≠ mark := fun hc => h (hc ▸ List.mem_cons_self)
    have hcs : mark ∉ cs := fun hcs => h (List.mem_cons_of_mem c hcs)
    simp [splitAtEach, ih hcs, hc]

theorem splitAtEach_ne_nil (mark : Char) (cs : List Char) : splitAtEach mark cs ≠ [] := by
  cases cs with
  | nil => simp [splitAtEach]
  | cons c cs =>
    unfold splitAtEach
    split
    · simp
    · split <;> simp

/-- The pieces on the two sides of a mark. -/
theorem splitAtEach_append (mark : Char) (before after : List Char) :
    splitAtEach mark (before ++ mark :: after) =
      splitAtEach mark before ++ splitAtEach mark after := by
  induction before with
  | nil => simp [splitAtEach]
  | cons c before ih =>
    simp only [List.cons_append, splitAtEach, ih]
    by_cases hc : c = mark
    · simp [hc]
    · rw [if_neg hc, if_neg hc]
      cases hpieces : splitAtEach mark before with
      | nil => exact absurd hpieces (splitAtEach_ne_nil mark before)
      | cons piece pieces => rfl

theorem not_mem_of_mem_splitAtEach {mark : Char} {cs piece : List Char}
    (h : piece ∈ splitAtEach mark cs) : mark ∉ piece := by
  induction cs generalizing piece with
  | nil =>
    rw [splitAtEach, List.mem_singleton] at h
    simp [h]
  | cons c cs ih =>
    unfold splitAtEach at h
    split at h
    · rcases List.mem_cons.1 h with rfl | h
      · simp
      · exact ih h
    · next hc =>
      split at h
      · next hpieces => exact absurd hpieces (splitAtEach_ne_nil mark cs)
      · next first pieces hpieces =>
        rw [hpieces] at ih
        rcases List.mem_cons.1 h with rfl | h
        · have hfirst := ih List.mem_cons_self
          simp [hfirst, Ne.symm hc]
        · exact ih (List.mem_cons_of_mem first h)

end StepScript.Text
