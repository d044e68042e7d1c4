import Mathlib.Data.List.DropRight
import Mathlib.Data.List.TakeWhile
import StepScript.Text.Blank

/-!
What trimming leaves of a text. The characters that are trimmed away are blank, what is left neither
starts nor ends with a blank, and there is only one way to split a text like that.
-/

set_option autoImplicit false
set_option relaxedAutoImplicit false

namespace StepScript.Text

def AreBlank (cs : List Char) : Prop := ∀ c ∈ cs, isBlank c = true

instance (cs : List Char) : Decidable (AreBlank cs) :=
  decidable_of_iff (cs.all isBlank = true) List.all_eq_true

theorem areBlank_singleton {c : Char} (h : isBlank c = true) : AreBlank [c] := by
  simpa [AreBlank] using h

structure IsTrimmed (cs : List Char) : Prop where
  first : ∀ c ∈ cs.head?, isBlank c = false
  last : ∀ c ∈ cs.getLast?, isBlank c = false

private theorem isTrimmed_nil : IsTrimmed [] := ⟨nofun, nofun⟩

private theorem trimEnd_eq_rdropWhile (cs : List Char) : trimEnd cs = cs.rdropWhile isBlank := rfl

section Dropping

variable {p : Char → Bool} {before cs after : List Char}

theorem dropWhile_append_of_head? (hbefore : ∀ c ∈ before, p c = true)
    (hfirst : ∀ c ∈ cs.head?, p c = false) : (before ++ cs).dropWhile p = cs := by
  rw [List.dropWhile_append_of_pos hbefore]
  cases cs with
  | nil => rfl
  | cons c cs => rw [List.dropWhile_cons_of_neg (by simp [hfirst c rfl])]

theorem rdropWhile_append_of_getLast? (hafter : ∀ c ∈ after, p c = true)
    (hlast : ∀ c ∈ cs.getLast?, p c = false) : (cs ++ after).rdropWhile p = cs := by
  have hreverse : (after.reverse ++ cs.reverse).dropWhile p = cs.reverse :=
    dropWhile_append_of_head? (fun c hc => hafter c (List.mem_reverse.1 hc)) (by simpa using hlast)
  rw [List.rdropWhile, List.reverse_append, hreverse, List.reverse_reverse]

end Dropping

/-- What stands between blanks and does not start or end with one is what trimming leaves. -/
theorem trimChars_surrounded {before cs after : List Char} (hbefore : AreBlank before)
    (hcs : IsTrimmed cs) (hafter : AreBlank after) : trimChars (before ++ cs ++ after) = cs := by
  by_cases hnil : cs = []
  · subst hnil
    have hall : AreBlank (before ++ [] ++ after) := by
      intro c hc
      rw [List.append_nil, List.mem_append] at hc
      exact hc.elim (hbefore c) (hafter c)
    rw [trimChars, trimStart, List.dropWhile_eq_nil_iff.2 hall]
    rfl
  · have hfirst : ∀ c ∈ (cs ++ after).head?, isBlank c = false := by
      rw [List.head?_append_of_ne_nil cs hnil]
      exact hcs.first
    rw [trimChars, trimStart, List.append_assoc, dropWhile_append_of_head? hbefore hfirst,
      trimEnd_eq_rdropWhile, rdropWhile_append_of_getLast? hafter hcs.last]

/-- A text is what trimming leaves of it, between blanks. -/
theorem exists_surroundings (cs : List Char) : ∃ before after, AreBlank before ∧ AreBlank after ∧
    cs = before ++ trimChars cs ++ after ∧ IsTrimmed (trimChars cs) := by
  refine ⟨cs.takeWhile isBlank, (trimStart cs).rtakeWhile isBlank,
    fun c hc => List.mem_takeWhile_imp hc, fun c hc => List.mem_rtakeWhile_imp hc, ?_, ?_, ?_⟩
  · rw [trimChars, trimEnd_eq_rdropWhile, List.append_assoc, List.rdropWhile_append_rtakeWhile,
      trimStart, List.takeWhile_append_dropWhile]
  · intro c hc
    obtain ⟨rest, hrest⟩ := List.rdropWhile_prefix isBlank (trimStart cs)
    have hstart : c ∈ (trimStart cs).head? := by
      rw [← hrest]
      exact List.mem_head?_append_of_mem_head? hc
    have hnot := List.head?_dropWhile_not isBlank cs
    rw [← trimStart, hstart] at hnot
    simpa using hnot
  · intro c hc
    obtain ⟨hne, hlast⟩ := List.mem_getLast?_eq_getLast hc
    rw [hlast]
    exact eq_false_of_ne_true (List.rdropWhile_last_not isBlank _ hne)

theorem isTrimmed_trimChars (cs : List Char) : IsTrimmed (trimChars cs) := by
  obtain ⟨before, after, -, -, -, htrimmed⟩ := exists_surroundings cs
  exact htrimmed

theorem trimChars_of_isTrimmed {cs : List Char} (h : IsTrimmed cs) : trimChars cs = cs := by
  have hnone : AreBlank [] := nofun
  simpa using trimChars_surrounded hnone h hnone

theorem trimChars_eq_nil_iff {cs : List Char} : trimChars cs = [] ↔ AreBlank cs := by
  obtain ⟨before, after, hbefore, hafter, hcs, -⟩ := exists_surroundings cs
  constructor
  · intro hnil
    rw [hcs, hnil]
    intro c hc
    simp only [List.append_nil, List.mem_append] at hc
    exact hc.elim (hbefore c) (hafter c)
  · intro hblank
    have hnone : AreBlank [] := nofun
    simpa using trimChars_surrounded hblank isTrimmed_nil hnone

theorem ofList_trimChars_eq_empty_iff {cs : List Char} :
    String.ofList (trimChars cs) = "" ↔ AreBlank cs := by
  rw [← trimChars_eq_nil_iff, ← String.toList_inj, String.toList_ofList]
  rfl

theorem trimChars_blank_append {before : List Char} (h : AreBlank before) (cs : List Char) :
    trimChars (before ++ cs) = trimChars cs := by
  obtain ⟨first, last, hfirst, hlast, hcs, htrimmed⟩ := exists_surroundings cs
  have hboth : AreBlank (before ++ first) := fun c hc =>
    (List.mem_append.1 hc).elim (h c) (hfirst c)
  have hall := trimChars_surrounded hboth htrimmed hlast
  rwa [List.append_assoc, List.append_assoc, ← List.append_assoc first, ← hcs] at hall

theorem trimChars_append_blank {after : List Char} (h : AreBlank after) (cs : List Char) :
    trimChars (cs ++ after) = trimChars cs := by
  obtain ⟨first, last, hfirst, hlast, hcs, htrimmed⟩ := exists_surroundings cs
  have hboth : AreBlank (last ++ after) := fun c hc =>
    (List.mem_append.1 hc).elim (hlast c) (h c)
  have hall := trimChars_surrounded hfirst htrimmed hboth
  rwa [← List.append_assoc, ← hcs] at hall

theorem mem_of_mem_trimChars {c : Char} {cs : List Char} (h : c ∈ trimChars cs) : c ∈ cs := by
  obtain ⟨before, after, -, -, hcs, -⟩ := exists_surroundings cs
  rw [hcs]
  simp [h]

theorem IsTrimmed.append {cs cs' : List Char} (h : IsTrimmed cs) (h' : IsTrimmed cs')
    (hne : cs ≠ []) (hne' : cs' ≠ []) (between : List Char) : IsTrimmed (cs ++ between ++ cs') where
  first := by
    rw [List.append_assoc, List.head?_append_of_ne_nil cs hne]
    exact h.first
  last := by
    rw [List.getLast?_append_of_ne_nil _ hne']
    exact h'.last

theorem IsTrimmed.not_areBlank {cs : List Char} (h : IsTrimmed cs) (hne : cs ≠ []) :
    ¬ AreBlank cs := by
  obtain ⟨c, rest, rfl⟩ := List.exists_cons_of_ne_nil hne
  intro hblank
  have hc := hblank c List.mem_cons_self
  rw [h.first c rfl] at hc
  cases hc

theorem isTrimmed_singleton {c : Char} (h : isBlank c = false) : IsTrimmed [c] := by
  constructor <;> rintro _ ⟨⟩ <;> exact h

private theorem trimStart_append_cons {c : Char} (hc : isBlank c = false)
    (before after : List Char) :
    trimStart (before ++ c :: after) = trimStart before ++ c :: after := by
  have hstop : (c :: after).dropWhile isBlank = c :: after :=
    List.dropWhile_cons_of_neg (by simp [hc])
  rw [trimStart, trimStart, List.dropWhile_append, hstop]
  split
  · next hnil => rw [List.isEmpty_iff.1 hnil, List.nil_append]
  · rfl

private theorem trimEnd_append_cons {c : Char} (hc : isBlank c = false) (before after : List Char) :
    trimEnd (before ++ c :: after) = before ++ c :: trimEnd after := by
  have hreverse : (before ++ c :: after).reverse = after.reverse ++ c :: before.reverse := by simp
  rw [trimEnd, hreverse, trimStart_append_cons hc]
  simp [trimEnd]

/-- A character that is not blank keeps the two sides of a text apart when the text is trimmed. -/
theorem exists_trimChars_eq {c : Char} (hc : isBlank c = false) (before after : List Char) :
    ∃ before' after', trimChars (before ++ c :: after) = before' ++ c :: after' ∧
      trimChars before' = trimChars before ∧ trimChars after' = trimChars after ∧
        before' ⊆ before := by
  refine ⟨trimStart before, trimEnd after, ?_, ?_, ?_, List.dropWhile_subset _⟩
  · rw [trimChars, trimStart_append_cons hc, trimEnd_append_cons hc]
  · rw [trimChars, trimChars, trimStart, trimStart, List.dropWhile_idempotent]
  · have hblank : AreBlank (after.rtakeWhile isBlank) := fun c hc => List.mem_rtakeWhile_imp hc
    have hafter : trimEnd after ++ after.rtakeWhile isBlank = after :=
      List.rdropWhile_append_rtakeWhile
    conv_rhs => rw [← hafter, trimChars_append_blank hblank]

end StepScript.Text
