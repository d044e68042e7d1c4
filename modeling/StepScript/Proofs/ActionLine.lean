import StepScript.Proofs.Trimming
import StepScript.Script.Parser

/-!
The line of an action: a head, the first colon, and a text. The head is a name, or a name with an
argument in parentheses at its end, where the last parenthesis that opens counts and does not stand
first. A line that is no action has no colon, or only blanks before the first one or behind it.
-/

set_option autoImplicit false
set_option relaxedAutoImplicit false

namespace StepScript

open Script Text

/-- A line is cut at its first colon. -/
structure IsCut (line before after : List Char) : Prop where
  eq : line = before ++ ':' :: after
  not_mem : ':' ∉ before

def IsActionLine (line : String) : Prop :=
  ∃ before after, IsCut line.toList before after ∧ ¬ AreBlank before ∧ ¬ AreBlank after

theorem isBlank_colon : isBlank ':' = false := by decide

private theorem exists_isCut {line : List Char} (h : ':' ∈ line) :
    ∃ before after, IsCut line before after := by
  obtain ⟨before, after, heq, hnot⟩ := List.eq_append_cons_of_mem h
  exact ⟨before, after, heq, hnot⟩

private theorem IsCut.cutAtFirst_eq {line before after : List Char} (h : IsCut line before after) :
    cutAtFirst [':'] line = some (before, after) := by
  rw [h.eq]
  exact cutAtFirst_singleton ':' h.not_mem after

theorem IsCut.unique {line before after before' after' : List Char} (h : IsCut line before after)
    (h' : IsCut line before' after') : before = before' ∧ after = after' := by
  have hcut := h.cutAtFirst_eq
  rw [h'.cutAtFirst_eq] at hcut
  cases hcut
  exact ⟨rfl, rfl⟩

private theorem IsCut.trimmed {line before after : List Char} (h : IsCut line before after) :
    ∃ before' after', IsCut (trimChars line) before' after' ∧
      trimChars before' = trimChars before ∧ trimChars after' = trimChars after := by
  obtain ⟨before', after', heq, hbefore, hafter, hsub⟩ :=
    exists_trimChars_eq isBlank_colon before after
  exact ⟨before', after', ⟨h.eq ▸ heq, fun hmem => h.not_mem (hsub hmem)⟩, hbefore, hafter⟩

namespace Action

/-- What keeps a line from being an action. -/
inductive IsFault (line : String) : Fault → Prop
  | missingDelimiter : ':' ∉ line.toList → IsFault line .missingDelimiter
  | emptyActionName {before after : List Char} : IsCut line.toList before after → AreBlank before →
      IsFault line .emptyActionName
  | emptyActionText {before after : List Char} : IsCut line.toList before after →
      ¬ AreBlank before → AreBlank after → IsFault line .emptyActionText

structure HasArgument (head name inside : List Char) : Prop where
  eq : head = name ++ '(' :: (inside ++ [')'])
  ne_nil : name ≠ []
  not_mem : '(' ∉ inside

inductive Heads (head : List Char) : List Char → Option (List Char) → Prop
  | argument {name inside : List Char} : HasArgument head name inside →
      Heads head (trimChars name) (some (trimChars inside))
  | plain : (∀ name inside, ¬ HasArgument head name inside) → Heads head head none

/-- The action that a line says. -/
inductive Reads (line : String) : Action → Prop
  | intro {before after name : List Char} {arg : Option (List Char)} :
      IsCut line.toList before after → ¬ AreBlank before → ¬ AreBlank after →
      Heads (trimChars before) name arg →
      Reads line ⟨String.ofList name, String.ofList (trimChars after), arg.map String.ofList⟩

private theorem splitHead_of_hasArgument {head name inside : List Char}
    (h : HasArgument head name inside) :
    splitHead head = (trimChars name, some (trimChars inside)) := by
  have hinside : '(' ∉ inside ++ [')'] := by simp [h.not_mem]
  have hlast : head.getLast? = some ')' := by
    rw [h.eq, List.getLast?_append_of_ne_nil _ (List.cons_ne_nil _ _),
      List.getLast?_cons_of_ne_nil (by simp)]
    simp
  have hcut : cutAtLast '(' head = some (name, inside ++ [')']) := by
    rw [h.eq]
    exact cutAtLast_append name hinside
  obtain ⟨c, cs, hname⟩ := List.exists_cons_of_ne_nil h.ne_nil
  unfold splitHead
  rw [hlast, hcut, hname]
  simp

private theorem splitHead_of_not {head : List Char}
    (h : ∀ name inside, ¬ HasArgument head name inside) : splitHead head = (head, none) := by
  unfold splitHead
  split
  · next hlast =>
    split
    · next c name inside hcut =>
      obtain ⟨hhead, hinside⟩ := eq_append_of_cutAtLast hcut
      rw [hhead, List.getLast?_append_of_ne_nil _ (List.cons_ne_nil _ _)] at hlast
      obtain ⟨inside, rfl⟩ : ∃ more, inside = more ++ [')'] := by
        rcases List.eq_nil_or_concat inside with rfl | ⟨more, last, rfl⟩
        · cases hlast
        · exact ⟨more, by simpa [List.getLast?_cons] using hlast⟩
      have hnot : '(' ∉ inside := fun hin => hinside (List.mem_append_left _ hin)
      exact absurd ⟨hhead, List.cons_ne_nil c name, hnot⟩ (h (c :: name) inside)
    · rfl
  · rfl

private theorem heads_iff {head name : List Char} {arg : Option (List Char)} :
    Heads head name arg ↔ splitHead head = (name, arg) := by
  constructor
  · rintro (⟨h⟩ | h)
    · exact splitHead_of_hasArgument h
    · exact splitHead_of_not h
  · intro hsplit
    by_cases h : ∃ name inside, HasArgument head name inside
    · obtain ⟨name', inside, h⟩ := h
      rw [splitHead_of_hasArgument h] at hsplit
      cases hsplit
      exact .argument h
    · have hnone : ∀ name inside, ¬ HasArgument head name inside :=
        fun name inside hsome => h ⟨name, inside, hsome⟩
      rw [splitHead_of_not hnone] at hsplit
      cases hsplit
      exact .plain hnone

private theorem parse_of_isCut {line : String} {before after : List Char}
    (h : IsCut line.toList before after) : parse line =
      if AreBlank before then fault (trim line) .emptyActionName
      else if AreBlank after then fault (trim line) .emptyActionText
      else .ok ⟨String.ofList (splitHead (trimChars before)).1, String.ofList (trimChars after),
        (splitHead (trimChars before)).2.map String.ofList⟩ := by
  obtain ⟨before', after', hcut, hbefore, hafter⟩ := h.trimmed
  unfold parse
  simp only [hcut.cutAtFirst_eq, hbefore, hafter, List.isEmpty_iff, trimChars_eq_nil_iff]
  rfl

private theorem parse_of_not_mem {line : String} (h : ':' ∉ line.toList) :
    parse line = fault (trim line) .missingDelimiter := by
  have hnot : ':' ∉ trimChars line.toList := fun hmem => h (mem_of_mem_trimChars hmem)
  unfold parse
  simp only [cutAtFirst_singleton_of_not_mem hnot]
  rfl

/-- An action is read from the lines that say it, and from no others. -/
theorem parse_eq_ok_iff {line : String} {a : Action} : parse line = .ok a ↔ Reads line a := by
  constructor
  · intro h
    by_cases hcolon : ':' ∈ line.toList
    · obtain ⟨before, after, hcut⟩ := exists_isCut hcolon
      rw [parse_of_isCut hcut] at h
      split at h
      · cases h
      · next hbefore =>
        split at h
        · cases h
        · next hafter =>
          cases h
          exact .intro hcut hbefore hafter (heads_iff.2 rfl)
    · rw [parse_of_not_mem hcolon] at h
      cases h
  · rintro ⟨hcut, hbefore, hafter, hheads⟩
    rw [parse_of_isCut hcut, if_neg hbefore, if_neg hafter, heads_iff.1 hheads]

theorem parse_eq_error_iff {line : String} {e : ScriptError} :
    parse line = .error e ↔ ∃ f, IsFault line f ∧ e = .malformed (trim line) f := by
  constructor
  · intro h
    by_cases hcolon : ':' ∈ line.toList
    · obtain ⟨before, after, hcut⟩ := exists_isCut hcolon
      rw [parse_of_isCut hcut] at h
      split at h
      · next hbefore =>
        cases h
        exact ⟨_, .emptyActionName hcut hbefore, rfl⟩
      · next hbefore =>
        split at h
        · next hafter =>
          cases h
          exact ⟨_, .emptyActionText hcut hbefore hafter, rfl⟩
        · cases h
    · rw [parse_of_not_mem hcolon] at h
      cases h
      exact ⟨_, .missingDelimiter hcolon, rfl⟩
  · rintro ⟨f, hfault, rfl⟩
    cases hfault with
    | missingDelimiter hcolon => exact parse_of_not_mem hcolon
    | emptyActionName hcut hbefore =>
      rw [parse_of_isCut hcut, if_pos hbefore]
      rfl
    | emptyActionText hcut hbefore hafter =>
      rw [parse_of_isCut hcut, if_neg hbefore, if_pos hafter]
      rfl

theorem exists_reads_iff {line : String} : (∃ a, Reads line a) ↔ IsActionLine line := by
  constructor
  · rintro ⟨a, ⟨hcut, hbefore, hafter, -⟩⟩
    exact ⟨_, _, hcut, hbefore, hafter⟩
  · rintro ⟨before, after, hcut, hbefore, hafter⟩
    exact ⟨_, .intro hcut hbefore hafter (heads_iff.2 rfl)⟩

theorem not_isFault_iff {line : String} : (∀ f, ¬ IsFault line f) ↔ IsActionLine line := by
  rw [← exists_reads_iff]
  simp only [← parse_eq_ok_iff]
  cases hparse : parse line with
  | ok a =>
    refine ⟨fun _ => ⟨a, rfl⟩, fun _ f hfault => ?_⟩
    rw [parse_eq_error_iff.2 ⟨f, hfault, rfl⟩] at hparse
    cases hparse
  | error e =>
    obtain ⟨f, hfault, -⟩ := parse_eq_error_iff.1 hparse
    exact ⟨fun hnone => absurd hfault (hnone f), nofun⟩

end Action
end StepScript
