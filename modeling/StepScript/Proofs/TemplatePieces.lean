import StepScript.Template
import Mathlib.Data.List.Basic

/-!
How a template is read. From left to right it falls into pieces: a name, where two brackets open and
close again on the same line, or else one character. There is one way to read a template like that,
and to fill it in is to put the value of each name in its place and to keep every other character.
So what is filled in is not looked at again, and nothing matters but the values of the names.
-/

set_option autoImplicit false
set_option relaxedAutoImplicit false

namespace StepScript

namespace Text

/-- The first place where a mark stands is the one between these two parts. -/
structure IsFirstPlace (mark cs before after : List Char) : Prop where
  eq : cs = before ++ mark ++ after
  first : ∀ before' after', cs = before' ++ mark ++ after' → before.length ≤ before'.length

private theorem IsFirstPlace.unique {mark cs before after before' after' : List Char}
    (h : IsFirstPlace mark cs before after) (h' : IsFirstPlace mark cs before' after') :
    before = before' ∧ after = after' := by
  have hle : before.length ≤ before'.length := h.first before' after' h'.eq
  have hge : before'.length ≤ before.length := h'.first before after h.eq
  have hsame : before ++ (mark ++ after) = before' ++ (mark ++ after') := by
    rw [← List.append_assoc, ← List.append_assoc, ← h.eq, ← h'.eq]
  have hparts := List.append_inj hsame (Nat.le_antisymm hle hge)
  exact ⟨hparts.1, List.append_cancel_left hparts.2⟩

private theorem isFirstPlace_of_cutAtFirst {mark cs before after : List Char}
    (h : cutAtFirst mark cs = some (before, after)) : IsFirstPlace mark cs before after := by
  refine ⟨eq_append_of_cutAtFirst h, ?_⟩
  induction cs generalizing before with
  | nil =>
    intro before' after' _
    have hnil : before = [] := by
      unfold cutAtFirst at h
      split at h
      · simp_all
      · cases h
    simp [hnil]
  | cons c cs ih =>
    intro before' after' hsplit
    unfold cutAtFirst at h
    split at h
    next =>
      obtain ⟨rfl, -⟩ : [] = before ∧ _ := by simpa using h
      exact Nat.zero_le _
    next hstart =>
      obtain ⟨parts, hparts, heq⟩ := Option.map_eq_some_iff.1 h
      obtain ⟨rfl, rfl⟩ := Prod.mk.inj heq
      cases before' with
      | nil =>
        have hprefix : mark <+: c :: cs := ⟨after', hsplit.symm⟩
        exact absurd (List.isPrefixOf_iff_prefix.2 hprefix) hstart
      | cons c' before' =>
        have hrest : cs = before' ++ mark ++ after' := (List.cons.inj hsplit).2
        have hle := ih hparts before' after' hrest
        simp only [List.length_cons]
        omega

private theorem cutAtFirst_eq_none_iff {mark cs : List Char} :
    cutAtFirst mark cs = none ↔ ¬ mark <:+: cs := by
  constructor
  · intro hnone hinfix
    induction cs with
    | nil =>
      obtain rfl : mark = [] := List.infix_nil.1 hinfix
      cases hnone
    | cons c cs ih =>
      unfold cutAtFirst at hnone
      split at hnone
      next => cases hnone
      next hstart =>
        rcases List.infix_cons_iff.1 hinfix with hprefix | hinside
        · exact hstart (List.isPrefixOf_iff_prefix.2 hprefix)
        · exact ih (Option.map_eq_none_iff.1 hnone) hinside
  · intro hnot
    cases hcut : cutAtFirst mark cs with
    | none => rfl
    | some parts =>
      have hplace := isFirstPlace_of_cutAtFirst hcut
      exact absurd ⟨parts.1, parts.2, hplace.eq.symm⟩ hnot

private theorem IsFirstPlace.cutAtFirst_eq {mark cs before after : List Char}
    (h : IsFirstPlace mark cs before after) : cutAtFirst mark cs = some (before, after) := by
  cases hcut : cutAtFirst mark cs with
  | none => exact absurd ⟨before, after, h.eq.symm⟩ (cutAtFirst_eq_none_iff.1 hcut)
  | some parts =>
    obtain ⟨hbefore, hafter⟩ := h.unique (isFirstPlace_of_cutAtFirst hcut)
    rw [hbefore, hafter]

end Text

namespace Template

open Text

/-! ## Pieces -/

/-- A name stands at the start of some characters: two brackets open, and before the first two that
close there is no line break. -/
structure StartsWithName (cs inside after : List Char) : Prop where
  closed : ∃ rest, cs = opening ++ rest ∧ IsFirstPlace closing rest inside after
  oneLine : '\n' ∉ inside

/-- A piece of a template: one character, or what stands between brackets. -/
inductive Piece
  | plain (c : Char)
  | name (inside : List Char)
  deriving DecidableEq

/-- Characters are read from left to right: a name where one stands, else one character. -/
inductive Reads : List Char → List Piece → Prop
  | done : Reads [] []
  | name {cs inside after : List Char} {pieces : List Piece} :
      StartsWithName cs inside after → Reads after pieces → Reads cs (.name inside :: pieces)
  | plain {c : Char} {cs : List Char} {pieces : List Piece} :
      (∀ inside after, ¬ StartsWithName (c :: cs) inside after) → Reads cs pieces →
      Reads (c :: cs) (.plain c :: pieces)

def Piece.source : Piece → List Char
  | .plain c => [c]
  | .name inside => opening ++ inside ++ closing

def Piece.key? : Piece → Option String
  | .plain _ => none
  | .name inside => some (trim (String.ofList inside))

/-- The value among the arguments, if it is not empty, else the one that has been gathered. -/
def firstValue (args gathered : Bindings) (key : String) : String :=
  let given := (args.find? key).getD ""
  if given = "" then (gathered.find? key).getD "" else given

/-- What stands in place of a piece when a template is filled in. -/
def Piece.filled (args gathered : Bindings) : Piece → List Char
  | .plain c => [c]
  | .name inside => (firstValue args gathered (trim (String.ofList inside))).toList

private theorem StartsWithName.unique {cs inside after inside' after' : List Char}
    (h : StartsWithName cs inside after) (h' : StartsWithName cs inside' after') :
    inside = inside' ∧ after = after' := by
  obtain ⟨rest, hcs, hplace⟩ := h.closed
  obtain ⟨rest', hcs', hplace'⟩ := h'.closed
  have hrest : rest = rest' := List.append_cancel_left (hcs.symm.trans hcs')
  exact hplace.unique (hrest ▸ hplace')

private theorem StartsWithName.eq {cs inside after : List Char}
    (h : StartsWithName cs inside after) :
    cs = opening ++ inside ++ closing ++ after := by
  obtain ⟨rest, rfl, hplace⟩ := h.closed
  rw [hplace.eq]
  simp only [List.append_assoc]

namespace Reads

variable {cs : List Char} {pieces pieces' : List Piece}

private theorem unique (h : Reads cs pieces) (h' : Reads cs pieces') : pieces = pieces' := by
  induction h generalizing pieces' with
  | done =>
    cases h' with
    | done => rfl
    | name hname _ => cases hname.eq
  | name hname _ ih =>
    cases h' with
    | done => cases hname.eq
    | name hname' hrest' =>
      obtain ⟨rfl, rfl⟩ := hname.unique hname'
      rw [ih hrest']
    | plain hnone _ => exact absurd hname (hnone _ _)
  | plain hnone _ ih =>
    cases h' with
    | name hname' _ => exact absurd hname' (hnone _ _)
    | plain _ hrest' => rw [ih hrest']

private theorem exists_reads (cs : List Char) : ∃ pieces, Reads cs pieces := by
  -- A name may be long, so the induction is on the number of characters that are left.
  induction hlength : cs.length using Nat.strongRecOn generalizing cs with
  | ind n ih =>
    by_cases hname : ∃ inside after, StartsWithName cs inside after
    · obtain ⟨inside, after, hname⟩ := hname
      have hshorter : after.length < n := by
        rw [← hlength, hname.eq]
        simp only [opening, List.length_append, List.length_cons]
        omega
      obtain ⟨pieces, hrest⟩ := ih _ hshorter after rfl
      exact ⟨_, .name hname hrest⟩
    · cases cs with
      | nil => exact ⟨[], .done⟩
      | cons c cs =>
        have hshorter : cs.length < n := by
          rw [← hlength]
          exact Nat.lt_succ_self _
        obtain ⟨pieces, hrest⟩ := ih _ hshorter cs rfl
        exact ⟨_, .plain (fun inside after h => hname ⟨inside, after, h⟩) hrest⟩

private theorem source_eq (h : Reads cs pieces) : pieces.flatMap Piece.source = cs := by
  induction h with
  | done => rfl
  | name hname _ ih => rw [List.flatMap_cons, ih, Piece.source, ← hname.eq]
  | plain _ _ ih => rw [List.flatMap_cons, ih, Piece.source, List.singleton_append]

end Reads

/-! ## Filling in -/

variable {args gathered : Bindings}

private theorem valueOf_eq (args gathered : Bindings) (key : String) :
    valueOf args gathered key = firstValue args gathered key := by
  have hpresent (bindings : Bindings) :
      (present? bindings key).getD "" = (bindings.find? key).getD "" := by
    unfold present?
    cases bindings.find? key with
    | none => rfl
    | some value => by_cases hvalue : value = "" <;> simp [hvalue]
  unfold valueOf firstValue
  cases hgiven : args.find? key with
  | none => simp [present?, hgiven, ← hpresent]
  | some value =>
    by_cases hvalue : value = ""
    · simp [present?, hgiven, hvalue, ← hpresent]
    · simp [present?, hgiven, hvalue]

/-! What filling in does is settled by the first place where brackets open and the first place where
they close behind it. -/

section Places

variable {cs before inside name after : List Char}

private theorem fillChars_of_no_opening (h : cutAtFirst opening cs = none) :
    fillChars args gathered cs = cs := by
  rw [fillChars]
  split
  next => rfl
  next hopen => simp [h] at hopen

private theorem fillChars_of_no_closing (hopen : cutAtFirst opening cs = some (before, inside))
    (hclose : cutAtFirst closing inside = none) : fillChars args gathered cs = cs := by
  rw [fillChars]
  split
  next => rfl
  next hopen' =>
    obtain ⟨rfl, rfl⟩ := Prod.mk.inj (Option.some.inj (hopen.symm.trans hopen'))
    split
    next => rfl
    next hclose' => simp [hclose] at hclose'

private theorem fillChars_of_cuts (hopen : cutAtFirst opening cs = some (before, inside))
    (hclose : cutAtFirst closing inside = some (name, after)) :
    fillChars args gathered cs =
      if name.contains '\n' then before ++ '[' :: fillChars args gathered ('[' :: inside)
      else before ++ fillName args gathered name ++ fillChars args gathered after := by
  rw [fillChars]
  split
  next hopen' => simp [hopen] at hopen'
  next hopen' =>
    obtain ⟨rfl, rfl⟩ := Prod.mk.inj (Option.some.inj (hopen.symm.trans hopen'))
    split
    next hclose' => simp [hclose] at hclose'
    next hclose' =>
      obtain ⟨rfl, rfl⟩ := Prod.mk.inj (Option.some.inj (hclose.symm.trans hclose'))
      rfl

private theorem fillChars_of_broken (hopen : cutAtFirst opening cs = some (before, inside))
    (hclose : cutAtFirst closing inside = some (name, after)) (hbroken : '\n' ∈ name) :
    fillChars args gathered cs = before ++ '[' :: fillChars args gathered ('[' :: inside) := by
  rw [fillChars_of_cuts hopen hclose, if_pos (List.contains_iff_mem.2 hbroken)]

private theorem fillChars_of_oneLine (hopen : cutAtFirst opening cs = some (before, inside))
    (hclose : cutAtFirst closing inside = some (name, after)) (hline : '\n' ∉ name) :
    fillChars args gathered cs =
      before ++ fillName args gathered name ++ fillChars args gathered after := by
  rw [fillChars_of_cuts hopen hclose, if_neg (mt List.contains_iff_mem.1 hline)]

end Places

private theorem cutAtFirst_opening_append (rest : List Char) :
    cutAtFirst opening (opening ++ rest) = some ([], rest) := by
  simp [opening, cutAtFirst]

private theorem fillChars_of_startsWithName {cs inside after : List Char}
    (h : StartsWithName cs inside after) : fillChars args gathered cs =
      (Piece.name inside).filled args gathered ++ fillChars args gathered after := by
  obtain ⟨rest, rfl, hplace⟩ := h.closed
  have hfilled : fillName args gathered inside = (Piece.name inside).filled args gathered := by
    rw [fillName, valueOf_eq, Piece.filled, Text.trim, String.toList_ofList]
  rw [fillChars_of_oneLine (cutAtFirst_opening_append rest) hplace.cutAtFirst_eq h.oneLine, hfilled,
    List.nil_append]

private theorem fillChars_cons_of_not_open {c : Char} {cs : List Char}
    (h : ¬ opening <+: c :: cs) :
    fillChars args gathered (c :: cs) = c :: fillChars args gathered cs := by
  have hcut : cutAtFirst opening (c :: cs) =
      (cutAtFirst opening cs).map fun parts => (c :: parts.1, parts.2) := by
    have hstart : ¬ opening.isPrefixOf (c :: cs) = true :=
      fun hstart => h (List.isPrefixOf_iff_prefix.1 hstart)
    rw [cutAtFirst, if_neg hstart]
  -- The first brackets to open, and so the way that filling in takes, are those of the rest.
  cases hopen : cutAtFirst opening cs with
  | none =>
    rw [hopen] at hcut
    rw [fillChars_of_no_opening hcut, fillChars_of_no_opening hopen]
  | some parts =>
    rw [hopen] at hcut
    cases hclose : cutAtFirst closing parts.2 with
    | none => rw [fillChars_of_no_closing hcut hclose, fillChars_of_no_closing hopen hclose]
    | some parts' =>
      by_cases hbroken : '\n' ∈ parts'.1
      · rw [fillChars_of_broken hcut hclose hbroken, fillChars_of_broken hopen hclose hbroken]
        rfl
      · rw [fillChars_of_oneLine hcut hclose hbroken, fillChars_of_oneLine hopen hclose hbroken]
        rfl

private theorem fillChars_cons_of_no_name {c : Char} {cs : List Char}
    (h : ∀ inside after, ¬ StartsWithName (c :: cs) inside after) :
    fillChars args gathered (c :: cs) = c :: fillChars args gathered cs := by
  by_cases hopens : opening <+: c :: cs
  · obtain ⟨rest, hrest⟩ := hopens
    obtain ⟨rfl, rfl⟩ : '[' = c ∧ '[' :: rest = cs := List.cons.inj hrest
    have hopen : cutAtFirst opening ('[' :: '[' :: rest) = some ([], rest) :=
      cutAtFirst_opening_append rest
    cases hclose : cutAtFirst closing rest with
    | none =>
      -- The second bracket may open again together with a third one, but nothing closes either.
      have hlater : fillChars args gathered ('[' :: rest) = '[' :: rest := by
        cases hopen' : cutAtFirst opening ('[' :: rest) with
        | none => exact fillChars_of_no_opening hopen'
        | some parts =>
          refine fillChars_of_no_closing hopen' (cutAtFirst_eq_none_iff.2 fun hcloses => ?_)
          have hparts := eq_append_of_cutAtFirst hopen'
          have hsuffix : parts.2 <:+ rest := by
            rcases List.suffix_cons_iff.1 ⟨_, hparts.symm⟩ with hall | hrest
            · have hlength := congrArg List.length (hall ▸ hparts)
              simp only [opening, List.length_append, List.length_cons] at hlength
              omega
            · exact hrest
          exact cutAtFirst_eq_none_iff.1 hclose (hcloses.trans hsuffix.isInfix)
      rw [fillChars_of_no_closing hopen hclose, hlater]
    | some parts =>
      have hbroken : '\n' ∈ parts.1 := by
        refine Decidable.byContradiction fun hline => ?_
        exact h parts.1 parts.2 ⟨⟨rest, rfl, isFirstPlace_of_cutAtFirst hclose⟩, hline⟩
      rw [fillChars_of_broken hopen hclose hbroken, List.nil_append]
  · exact fillChars_cons_of_not_open hopens

private theorem Reads.fillChars_eq {cs : List Char} {pieces : List Piece} (h : Reads cs pieces) :
    fillChars args gathered cs = pieces.flatMap (Piece.filled args gathered) := by
  induction h with
  | done => exact fillChars_of_no_opening rfl
  | name hname _ ih => rw [fillChars_of_startsWithName hname, ih, List.flatMap_cons]
  | plain hnone _ ih =>
    rw [fillChars_cons_of_no_name hnone, ih, List.flatMap_cons, Piece.filled, List.singleton_append]

theorem fill_of_plain {template : String} (h : ¬ opening <:+: template.toList) :
    fill args gathered template = template := by
  rw [fill, fillChars_of_no_opening (cutAtFirst_eq_none_iff.2 h), String.ofList_toList]

private theorem flatMap_filled_congr {pieces : List Piece} {args' gathered' : Bindings}
    (h : ∀ key ∈ pieces.filterMap Piece.key?,
      firstValue args gathered key = firstValue args' gathered' key) :
    pieces.flatMap (Piece.filled args gathered) = pieces.flatMap (Piece.filled args' gathered') := by
  refine List.flatMap_congr fun piece hpiece => ?_
  cases piece with
  | plain c => rfl
  | name inside =>
    have hkey : trim (String.ofList inside) ∈ pieces.filterMap Piece.key? :=
      List.mem_filterMap.2 ⟨.name inside, hpiece, rfl⟩
    rw [Piece.filled, Piece.filled, h _ hkey]

/-- A template is read in one way, from left to right and without loss: a name where one stands, else
one character. To fill it in is to put the value of each name in its place and to keep all else, so
nothing matters but the values of the names that are read. -/
theorem fill_eq_flatMap_filled (template : String) :
    ∃ pieces, Reads template.toList pieces ∧
      (∀ pieces', Reads template.toList pieces' → pieces' = pieces) ∧
      pieces.flatMap Piece.source = template.toList ∧
      (∀ args gathered : Bindings, fill args gathered template =
        String.ofList (pieces.flatMap (Piece.filled args gathered))) ∧
      ∀ args gathered args' gathered' : Bindings,
        (∀ key ∈ pieces.filterMap Piece.key?,
          firstValue args gathered key = firstValue args' gathered' key) →
        fill args gathered template = fill args' gathered' template := by
  obtain ⟨pieces, hreads⟩ := Reads.exists_reads template.toList
  have hfill (args gathered : Bindings) : fill args gathered template =
      String.ofList (pieces.flatMap (Piece.filled args gathered)) := by
    rw [fill, hreads.fillChars_eq]
  refine ⟨pieces, hreads, fun pieces' h => h.unique hreads, hreads.source_eq, hfill, ?_⟩
  intro args gathered args' gathered' hvalues
  rw [hfill, hfill, flatMap_filled_congr hvalues]

/-- A value that looks like a name is kept as it is, and brackets on two lines are no name. -/
example : fill (Dict.ofList [("a", "[[b]]")]) (Dict.ofList [("b", "x")]) "[[ a ]][[b\n]] [[b]]" =
    "[[b]][[b\n]] x" := by
  decide +kernel

end Template
end StepScript
