import StepScript.Proofs.Reprinting

/-!
Actions written down: a name, an argument in parentheses if there is one, a colon and a text. The
first colon and the last parenthesis that opens decide where such a line is cut, so it is read as
the action that was written just when the argument has neither of them. With one of them the line is
read all the same, but as another action.
-/

set_option autoImplicit false
set_option relaxedAutoImplicit false

namespace StepScript.Action

open Script Text

/-- The line of an action, without blanks around its colon. -/
def written (a : Action) : String := a.head ++ ":" ++ a.text

/-- An action whose parts can stand in a line, and whose name has no mark of an action's line. -/
structure IsWritable (a : Action) : Prop where
  name : IsPhrase a.name
  name_ne : a.name ≠ ""
  name_plain : ∀ c ∈ a.name.toList, c ≠ ':' ∧ c ≠ '(' ∧ c ≠ ')'
  text : IsPhrase a.text
  text_ne : a.text ≠ ""
  arg : ∀ arg ∈ a.arg, IsPhrase arg

namespace IsWritable

variable {a : Action}

private theorem toList_written (a : Action) :
    a.written.toList = a.head.toList ++ ':' :: a.text.toList := by
  simp [written, String.toList_append]

private theorem noBreak_written (h : a.IsWritable) : '\n' ∉ a.written.toList := by
  rw [toList_written, toList_head]
  cases harg : a.arg with
  | none => simp [h.name.noBreak, h.text.noBreak]
  | some arg =>
    have hbreak := (h.arg arg harg).noBreak
    simp [h.name.noBreak, h.text.noBreak, hbreak]

private theorem isSayable (h : a.IsWritable)
    (harg : ∀ arg ∈ a.arg, ':' ∉ arg.toList ∧ '(' ∉ arg.toList) : a.IsSayable where
  name := h.name
  name_ne := h.name_ne
  name_colon hmem := (h.name_plain _ hmem).1 rfl
  text := h.text
  text_ne := h.text_ne
  arg arg hmem := ⟨h.arg arg hmem, harg arg hmem⟩
  plain _ name inside hhas := (h.name_plain '(' (by simp [hhas.eq])).2.1 rfl

private theorem reads (h : a.IsWritable)
    (harg : ∀ arg ∈ a.arg, ':' ∉ arg.toList ∧ '(' ∉ arg.toList) : Reads a.written a := by
  have hsayable := h.isSayable harg
  have hcut : IsCut a.written.toList (a.head.toList ++ []) a.text.toList := by
    rw [List.append_nil]
    exact ⟨toList_written a, hsayable.head_colon⟩
  have hgap : AreBlank [] := nofun
  exact hsayable.reads_of_isCut hgap hcut

private theorem isActionLine (h : a.IsWritable) : IsActionLine a.written := by
  obtain ⟨inner, hhead⟩ : ∃ inner, a.head.toList = a.name.toList ++ inner := ⟨_, toList_head a⟩
  have hline : a.written.toList = a.name.toList ++ inner ++ ':' :: a.text.toList := by
    rw [toList_written, hhead]
  have hcolon : ':' ∉ a.name.toList := fun hmem => (h.name_plain _ hmem).1 rfl
  have hname (more : List Char) : ¬ AreBlank (a.name.toList ++ more) := fun hblank =>
    h.name.trimmed.not_areBlank (fun hnil => h.name_ne (String.toList_eq_nil_iff.1 hnil))
      fun c hc => hblank c (List.mem_append_left _ hc)
  have htext (less : List Char) : ¬ AreBlank (less ++ a.text.toList) := fun hblank =>
    h.text.trimmed.not_areBlank (fun hnil => h.text_ne (String.toList_eq_nil_iff.1 hnil))
      fun c hc => hblank c (List.mem_append_right _ hc)
  by_cases hinner : ':' ∈ inner
  · obtain ⟨before, after, rfl, hbefore⟩ := List.eq_append_cons_of_mem hinner
    refine ⟨a.name.toList ++ before, (after ++ [':']) ++ a.text.toList, ⟨?_, ?_⟩, hname _, htext _⟩
    · simp [hline]
    · simp [hcolon, hbefore]
  · exact ⟨a.name.toList ++ inner, [] ++ a.text.toList, ⟨hline, by simp [hcolon, hinner]⟩,
      hname _, htext _⟩

/-- A written action is read as some action, which is the one that was written just when its argument
has no colon and no parenthesis that opens. -/
theorem parse_written (h : a.IsWritable) :
    ∃ a', parse a.written = .ok a' ∧
      (a' = a ↔ ∀ arg ∈ a.arg, ':' ∉ arg.toList ∧ '(' ∉ arg.toList) := by
  obtain ⟨a', hreads⟩ := exists_reads_iff.2 h.isActionLine
  refine ⟨a', parse_eq_ok_iff.2 hreads, ?_, fun harg => ?_⟩
  · rintro rfl arg harg
    exact ((hreads.isSayable h.noBreak_written).arg arg harg).2
  · have hread := (parse_eq_ok_iff.2 hreads).symm.trans (parse_eq_ok_iff.2 (h.reads harg))
    exact Except.ok.inj hread

end IsWritable

/-! ## Waiting -/

def wait (arg : String) : Action := ⟨"wait", "the clock", some arg⟩

private theorem isPhrase_of_trimmed {s : String} (h : trimChars s.toList = s.toList)
    (hbreak : '\n' ∉ s.toList) : IsPhrase s where
  trimmed := h ▸ isTrimmed_trimChars s.toList
  noBreak := hbreak

private theorem isWritable_wait {arg : String} (h : IsPhrase arg) : (wait arg).IsWritable := by
  have hname : IsPhrase "wait" := isPhrase_of_trimmed (by decide) (by decide)
  have hplain : ∀ c ∈ "wait".toList, c ≠ ':' ∧ c ≠ '(' ∧ c ≠ ')' := by simp
  have htext : IsPhrase "the clock" := isPhrase_of_trimmed (by decide) (by decide)
  have hempty : "wait" ≠ "" ∧ "the clock" ≠ "" := by decide
  refine ⟨hname, hempty.1, hplain, htext, hempty.2, ?_⟩
  rintro _ ⟨⟩
  exact h

/-- A parenthesis that closes does no harm, but one that opens does. -/
theorem parse_written_wait :
    parse (wait "a) b").written = .ok (wait "a) b") ∧
      ∃ a', parse (wait "half(1)").written = .ok a' ∧ a' ≠ wait "half(1)" := by
  have hclosing : IsPhrase "a) b" := isPhrase_of_trimmed (by decide) (by decide)
  have hopening : IsPhrase "half(1)" := isPhrase_of_trimmed (by decide) (by decide)
  obtain ⟨a', hparse, hsame⟩ := (isWritable_wait hclosing).parse_written
  obtain rfl : a' = wait "a) b" := hsame.2 (by decide)
  obtain ⟨a'', hparse', hsame'⟩ := (isWritable_wait hopening).parse_written
  exact ⟨hparse, a'', hparse', fun heq => absurd (hsame'.1 heq) (by decide)⟩

/-- A time in the argument is cut at its colon. -/
theorem not_forall_parse_written : ¬ ∀ a : Action, a.IsWritable → parse a.written = .ok a := by
  intro h
  have htime : IsPhrase "12:30" := isPhrase_of_trimmed (by decide) (by decide)
  have hwait : parse "wait(12:30):the clock" = .ok (wait "12:30") := h _ (isWritable_wait htime)
  have hread : parse "wait(12:30):the clock" = .ok ⟨"wait(12", "30):the clock", none⟩ := by
    decide +kernel
  exact absurd (hwait.symm.trans hread) (by decide)

end StepScript.Action
