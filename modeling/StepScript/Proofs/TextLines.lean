import StepScript.Proofs.Trimming
import StepScript.Script.Parser

/-!
The lines of a text. A text is cut at its line breaks, the blanks at both ends of a piece are taken
away, and a piece of nothing but blanks is left out. Every text has lines in just one way.
-/

set_option autoImplicit false
set_option relaxedAutoImplicit false

namespace StepScript.Script

open Text

/-- A piece of a text holds one line, between blanks, or it is blank and holds none. -/
inductive HoldsLine : List Char → List String → Prop
  | none {piece : List Char} : AreBlank piece → HoldsLine piece []
  | one {before cs after : List Char} : AreBlank before → AreBlank after → IsTrimmed cs → cs ≠ [] →
      HoldsLine (before ++ cs ++ after) [String.ofList cs]

/-- The lines of some characters are those of the pieces between the line breaks. -/
inductive HasLines : List Char → List String → Prop
  | last {piece : List Char} {ls : List String} :
      '\n' ∉ piece → HoldsLine piece ls → HasLines piece ls
  | cut {piece rest : List Char} {ls more : List String} :
      '\n' ∉ piece → HoldsLine piece ls → HasLines rest more →
      HasLines (piece ++ '\n' :: rest) (ls ++ more)

private def linesFrom (cs : List Char) : List String :=
  ((splitAtEach '\n' cs).map fun piece => String.ofList (trimChars piece)).filter
    fun line => line != ""

private theorem linesFrom_piece {piece : List Char} (h : '\n' ∉ piece) :
    linesFrom piece = if AreBlank piece then [] else [String.ofList (trimChars piece)] := by
  rw [linesFrom, splitAtEach_of_not_mem h, List.map_singleton]
  by_cases hblank : AreBlank piece
  · have hempty := ofList_trimChars_eq_empty_iff.2 hblank
    rw [if_pos hblank, List.filter_cons_of_neg (by simp [hempty]), List.filter_nil]
  · have hne : String.ofList (trimChars piece) ≠ "" := fun hempty =>
      hblank (ofList_trimChars_eq_empty_iff.1 hempty)
    rw [if_neg hblank, List.filter_cons_of_pos (by simpa using hne), List.filter_nil]

private theorem linesFrom_append (cs rest : List Char) :
    linesFrom (cs ++ '\n' :: rest) = linesFrom cs ++ linesFrom rest := by
  rw [linesFrom, splitAtEach_append, List.map_append, List.filter_append]
  rfl

private theorem linesFrom_of_holdsLine {piece : List Char} {ls : List String} (h : '\n' ∉ piece)
    (hholds : HoldsLine piece ls) : linesFrom piece = ls := by
  rw [linesFrom_piece h]
  cases hholds with
  | none hblank => rw [if_pos hblank]
  | @one before cs after hbefore hafter hcs hne =>
    have hnot : ¬ AreBlank (before ++ cs ++ after) := by
      intro hblank
      refine hcs.not_areBlank hne fun c hc => hblank c ?_
      simp [hc]
    rw [if_neg hnot, trimChars_surrounded hbefore hcs hafter]

private theorem holdsLine_linesFrom {piece : List Char} (h : '\n' ∉ piece) :
    HoldsLine piece (linesFrom piece) := by
  rw [linesFrom_piece h]
  by_cases hblank : AreBlank piece
  · rw [if_pos hblank]
    exact .none hblank
  · rw [if_neg hblank]
    obtain ⟨before, after, hbefore, hafter, heq, htrimmed⟩ := exists_surroundings piece
    have hne : trimChars piece ≠ [] := fun hnil => hblank (trimChars_eq_nil_iff.1 hnil)
    have hone := HoldsLine.one hbefore hafter htrimmed hne
    rwa [← heq] at hone

private theorem hasLines_linesFrom (cs : List Char) : HasLines cs (linesFrom cs) := by
  -- The induction is on the length: behind the first line break there is less.
  induction hlength : cs.length using Nat.strong_induction_on generalizing cs with
  | _ n ih =>
    by_cases hbreak : '\n' ∈ cs
    · obtain ⟨piece, rest, rfl, hpiece⟩ := List.eq_append_cons_of_mem hbreak
      have hshorter : rest.length < n := by
        rw [← hlength, List.length_append, List.length_cons]
        omega
      rw [linesFrom_append]
      exact .cut hpiece (holdsLine_linesFrom hpiece) (ih _ hshorter rest rfl)
    · exact .last hbreak (holdsLine_linesFrom hbreak)

private theorem linesFrom_of_hasLines {cs : List Char} {ls : List String} (h : HasLines cs ls) :
    linesFrom cs = ls := by
  induction h with
  | last hpiece hholds => exact linesFrom_of_holdsLine hpiece hholds
  | cut hpiece hholds _ ih => rw [linesFrom_append, linesFrom_of_holdsLine hpiece hholds, ih]

theorem hasLines_iff {source : String} {ls : List String} :
    HasLines source.toList ls ↔ lines source = ls := by
  constructor
  · intro h
    exact linesFrom_of_hasLines h
  · rintro rfl
    exact hasLines_linesFrom source.toList

theorem existsUnique_hasLines (source : String) : ∃! ls, HasLines source.toList ls := by
  refine ⟨lines source, hasLines_iff.2 rfl, fun ls h => ?_⟩
  exact (hasLines_iff.1 h).symm

theorem trim_of_mem_lines {source l : String} (h : l ∈ lines source) : trim l = l ∧ l ≠ "" := by
  obtain ⟨hmem, hne⟩ := List.mem_filter.1 h
  obtain ⟨cs, -, rfl⟩ := List.mem_map.1 hmem
  refine ⟨?_, by simpa using hne⟩
  rw [trim, String.toList_ofList, trimChars_of_isTrimmed (isTrimmed_trimChars cs)]

theorem lines_append (source more : String) :
    lines (source ++ "\n" ++ more) = lines source ++ lines more := by
  have hlist : (source ++ "\n" ++ more).toList = source.toList ++ '\n' :: more.toList := by
    simp [String.toList_append]
  have happend := linesFrom_append source.toList more.toList
  rwa [← hlist] at happend

end StepScript.Script
