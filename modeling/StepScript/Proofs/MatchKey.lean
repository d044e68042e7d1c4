import StepScript.Matcher
import StepScript.Proofs.EntryPath

/-!
Which lookups of a matcher share an entry of the cache. The key of a lookup is its patterns and its
text, line by line, so the lines of a key are the patterns and then the lines of the text. Two
lookups have one key when they are the same, or when the patterns of one go on where those of the
other end and the other's text starts with the patterns that it lacks.
-/

set_option autoImplicit false
set_option relaxedAutoImplicit false

namespace StepScript.Matcher

def linesOf (s : String) : List String := (s.toList.splitOn '\n').map String.ofList

def IsLine (s : String) : Prop := '\n' ∉ s.toList

/-- What a matcher can be asked about: some patterns, none of them empty and each a line. -/
structure IsPatternList (patterns : List String) : Prop where
  ne_nil : patterns ≠ []
  ne_empty : ∀ p ∈ patterns, p ≠ ""
  isLine : ∀ p ∈ patterns, IsLine p

private theorem intercalate_linesOf (s : String) : "\n".intercalate (linesOf s) = s := by
  rw [← String.toList_inj, String.toList_intercalate, linesOf, List.map_map]
  simp [Function.comp_def]

theorem linesOf_injective {s t : String} (h : linesOf s = linesOf t) : s = t := by
  rw [← intercalate_linesOf s, h, intercalate_linesOf]

private theorem linesOf_line {s : String} (h : IsLine s) : linesOf s = [s] := by
  simp [linesOf, List.splitOn_eq_singleton h]

private theorem linesOf_before_line (s t : String) :
    linesOf (s ++ "\n" ++ t) = linesOf s ++ linesOf t := by
  have hlist : (s ++ "\n" ++ t).toList = s.toList ++ '\n' :: t.toList := by
    simp [String.toList_append]
  rw [linesOf, hlist, List.splitOn_append_cons_self, List.map_append]
  rfl

/-- The lines of lines that are put together, and of a text behind them. -/
theorem linesOf_intercalate {lines : List String} (h : ∀ l ∈ lines, IsLine l) (t : String) :
    linesOf ("\n".intercalate (lines ++ [t])) = lines ++ linesOf t := by
  induction lines with
  | nil => simp
  | cons l lines ih =>
    have hl := h l List.mem_cons_self
    have hrest := ih fun l' hl' => h l' (List.mem_cons_of_mem l hl')
    rw [List.cons_append, String.intercalate_cons_of_ne_nil (by simp), linesOf_before_line,
      linesOf_line hl, hrest]
    rfl

private theorem linesOf_key_of_isLine {patterns : List String} (h : ∀ p ∈ patterns, IsLine p)
    (text : String) :
    linesOf (key patterns text) = (if patterns = [] then [""] else patterns) ++ linesOf text := by
  by_cases hpatterns : patterns = []
  · rw [if_pos hpatterns, hpatterns, key]
    exact linesOf_before_line "" text
  · rw [if_neg hpatterns, ← linesOf_intercalate h text, key,
      String.intercalate_append_of_ne_nil hpatterns (by simp), String.intercalate_singleton]

private theorem linesOf_key {patterns : List String} (h : IsPatternList patterns) (text : String) :
    linesOf (key patterns text) = patterns ++ linesOf text := by
  rw [linesOf_key_of_isLine h.isLine, if_neg h.ne_nil]

/-- The patterns of the second lookup go on after those of the first, and the text of the first
starts with what they go on with. -/
def RunsInto (patterns : List String) (text : String) (patterns' : List String) (text' : String) :
    Prop :=
  ∃ more, more ≠ [] ∧ patterns' = patterns ++ more ∧ text = "\n".intercalate (more ++ [text'])

private theorem append_linesOf_eq_iff {more : List String} (h : ∀ l ∈ more, IsLine l)
    (text text' : String) :
    linesOf text = more ++ linesOf text' ↔ text = "\n".intercalate (more ++ [text']) := by
  rw [← linesOf_intercalate h text']
  exact ⟨linesOf_injective, congrArg linesOf⟩

private theorem exists_more_iff {patterns patterns' : List String}
    (h' : ∀ p ∈ patterns', IsLine p) (text text' : String) :
    (∃ more, patterns' = patterns ++ more ∧ linesOf text = more ++ linesOf text') ↔
      (patterns = patterns' ∧ text = text') ∨ RunsInto patterns text patterns' text' := by
  have htext {more : List String} (hpatterns : patterns' = patterns ++ more) :
      linesOf text = more ++ linesOf text' ↔ text = "\n".intercalate (more ++ [text']) := by
    refine append_linesOf_eq_iff (fun l hl => h' l ?_) text text'
    rw [hpatterns]
    exact List.mem_append_right patterns hl
  constructor
  · rintro ⟨more, hpatterns, hlines⟩
    have hjoin := (htext hpatterns).1 hlines
    cases more with
    | nil =>
      left
      exact ⟨by simpa using hpatterns.symm, by simpa using hjoin⟩
    | cons l more =>
      right
      exact ⟨l :: more, by simp, hpatterns, hjoin⟩
  · rintro (⟨rfl, rfl⟩ | ⟨more, -, hpatterns, hjoin⟩)
    · exact ⟨[], by simp, by simp⟩
    · exact ⟨more, hpatterns, (htext hpatterns).2 hjoin⟩

/-- Two lookups share a key when they are the same or the text of one runs into the patterns of the
other. -/
theorem key_eq_key_iff {patterns patterns' : List String} (h : IsPatternList patterns)
    (h' : IsPatternList patterns') (text text' : String) :
    key patterns text = key patterns' text' ↔
      (patterns = patterns' ∧ text = text') ∨ RunsInto patterns text patterns' text' ∨
        RunsInto patterns' text' patterns text := by
  have hlines : key patterns text = key patterns' text' ↔
      patterns ++ linesOf text = patterns' ++ linesOf text' := by
    rw [← linesOf_key h, ← linesOf_key h']
    exact ⟨congrArg linesOf, linesOf_injective⟩
  have hsame : (patterns' = patterns ∧ text' = text) ↔ (patterns = patterns' ∧ text = text') := by
    rw [eq_comm, @eq_comm _ text']
  rw [hlines, List.append_eq_append_iff, exists_more_iff h'.isLine, exists_more_iff h.isLine, hsame]
  constructor
  · rintro ((hboth | hruns) | hboth | hruns)
    · exact .inl hboth
    · exact .inr (.inl hruns)
    · exact .inl hboth
    · exact .inr (.inr hruns)
  · rintro (hboth | hruns | hruns)
    · exact .inl (.inl hboth)
    · exact .inl (.inr hruns)
    · exact .inr (.inr hruns)

private theorem isPatternList_pair : IsPatternList ["a", "b"] :=
  ⟨by decide, by decide, by unfold IsLine; decide⟩

private theorem isPatternList_single : IsPatternList ["a"] :=
  ⟨by decide, by decide, by unfold IsLine; decide⟩

theorem key_eq_key_of_runsInto :
    IsPatternList ["a"] ∧ IsPatternList ["a", "b"] ∧ key ["a"] "b\nc" = key ["a", "b"] "c" := by
  refine ⟨isPatternList_single, isPatternList_pair, ?_⟩
  refine (key_eq_key_iff isPatternList_single isPatternList_pair "b\nc" "c").2 (.inr (.inl ?_))
  exact ⟨["b"], by decide, by decide, by decide⟩

/-- A text with a line break can make the keys of two different lookups the same. -/
theorem not_forall_key_injective :
    ¬ ∀ patterns patterns' : List String, IsPatternList patterns → IsPatternList patterns' →
      ∀ text text', key patterns text = key patterns' text' → patterns = patterns' ∧ text = text' := by
  intro h
  have hkey : key ["a"] "b\nc" = key ["a", "b"] "c" := by decide
  have hsame := h ["a"] ["a", "b"] isPatternList_single isPatternList_pair "b\nc" "c" hkey
  exact absurd hsame.1 (by decide)

/-- Lookups of texts without line breaks have different keys, also when there are no patterns. -/
theorem key_injective_of_isLine {patterns patterns' : List String}
    (h : ∀ p ∈ patterns, p ≠ "" ∧ IsLine p) (h' : ∀ p ∈ patterns', p ≠ "" ∧ IsLine p)
    {text text' : String} (htext : IsLine text) (htext' : IsLine text')
    (hkey : key patterns text = key patterns' text') : patterns = patterns' ∧ text = text' := by
  have hlines := congrArg linesOf hkey
  rw [linesOf_key_of_isLine fun p hp => (h p hp).2, linesOf_key_of_isLine fun p hp => (h' p hp).2,
    linesOf_line htext, linesOf_line htext'] at hlines
  obtain ⟨hpatterns, hlast⟩ := List.append_inj' hlines rfl
  refine ⟨?_, List.singleton_inj.1 hlast⟩
  by_cases hnil : patterns = [] <;> by_cases hnil' : patterns' = []
  · rw [hnil, hnil']
  · rw [if_pos hnil, if_neg hnil'] at hpatterns
    have hempty : "" ∈ patterns' := hpatterns ▸ List.mem_singleton_self _
    exact absurd rfl (h' _ hempty).1
  · rw [if_neg hnil, if_pos hnil'] at hpatterns
    have hempty : "" ∈ patterns := hpatterns ▸ List.mem_singleton_self _
    exact absurd rfl (h _ hempty).1
  · rwa [if_neg hnil, if_neg hnil'] at hpatterns

end StepScript.Matcher
