import Mathlib.Tactic.SplitIfs
import StepScript.Proofs.JsonRecord
import StepScript.Proofs.MatchKey

/-!
The question that a chat model is asked for a lookup. The patterns stand in a line of their own: JSON
escapes every character below the space, so the line ends where the list does, whatever the patterns
hold. The lines of a question therefore tell the lookup, also when the text repeats the words that
are put before it, and lookups that share a key are still asked in different words.
-/

set_option autoImplicit false
set_option relaxedAutoImplicit false

namespace StepScript

/-! ## Lists of texts in JSON -/

namespace Json

private theorem le_toNat_hexDigit : ∀ n < 16, 32 ≤ (hexDigit n).toNat := by decide

private theorem le_toNat_of_mem_escapeChar (c : Char) : ∀ d ∈ escapeChar c, 32 ≤ d.toNat := by
  unfold escapeChar
  split
  case h_6 =>
    split_ifs with h8 h12 hlow
    · simp
    · simp
    · have hfirst := le_toNat_hexDigit (c.toNat / 16) (by omega)
      have hlast := le_toNat_hexDigit (c.toNat % 16) (by omega)
      simpa using ⟨hfirst, hlast⟩
    · simpa using hlow
  all_goals simp

private theorem le_toNat_of_mem_quote {s : String} {c : Char} (h : c ∈ quote s) : 32 ≤ c.toNat := by
  simp only [quote, List.cons_append, List.mem_cons, List.mem_append, List.mem_flatMap,
    List.not_mem_nil, or_false] at h
  rcases h with rfl | ⟨d, -, hd⟩ | rfl
  · decide
  · exact le_toNat_of_mem_escapeChar d c hd
  · decide

private theorem le_toNat_of_mem_itemChars {texts : List String} {c : Char}
    (h : c ∈ itemChars .compact (texts.map .string)) : 32 ≤ c.toNat := by
  induction texts with
  | nil => simp [itemChars] at h
  | cons s texts ih =>
    simp only [List.map_cons, itemChars, Style.lineBreak, chars, List.cons_append,
      List.nil_append, List.mem_cons, List.mem_append] at h
    rcases h with rfl | h | h
    · decide
    · exact le_toNat_of_mem_quote h
    · exact ih h

private theorem le_toNat_of_mem_compact {texts : List String} {c : Char}
    (h : c ∈ (Codec.encode texts).compact.toList) : 32 ≤ c.toNat := by
  have hchars : c ∈ chars .compact (.array (texts.map .string)) := by
    rwa [compact, String.toList_ofList] at h
  cases texts with
  | nil =>
    simp only [List.map_nil, chars, List.mem_cons, List.not_mem_nil, or_false] at hchars
    rcases hchars with rfl | rfl <;> decide
  | cons s texts =>
    simp only [List.map_cons, chars, Style.inner, Style.lineBreak, List.cons_append,
      List.nil_append, List.append_nil, List.mem_cons, List.mem_append, List.not_mem_nil,
      or_false] at hchars
    rcases hchars with rfl | (h | h) | rfl
    · decide
    · exact le_toNat_of_mem_quote h
    · exact le_toNat_of_mem_itemChars h
    · decide

private theorem decodeText?_compact (texts : List String) :
    decodeText? (Codec.encode texts).compact = some texts := by
  have hfits : Fits depthLimit (.list .any) (.array (texts.map .string)) := by
    refine .list fun v hv => ?_
    obtain ⟨s, -, rfl⟩ := List.mem_map.1 hv
    exact .string _ _ s
  have hdocument : Document.ofText? (Codec.encode texts).compact =
      some (.ofValue (.array (texts.map .string))) := ofText?_chars hfits.legible .compact
  have hread : Document.readAs? depthLimit (Codec.shape (List String))
      (.ofValue (.array (texts.map .string))) = some (.array (texts.map .string)) :=
    readAs?_of_fits hfits
  rw [decodeText?, Json.readAs?, hdocument, Option.bind_some, hread, Option.bind_some]
  exact mapM_map_of_decode Json.string text?_string texts

end Json

/-! ## Questions -/

namespace Matcher

private def heading : String := "Here is a list of defined text:"

private def lead : String := "Find the predefined text that matches the following text: "

private theorem question_eq_intercalate (patterns : List String) (text : String) :
    question patterns text = "\n".intercalate
      ([heading, (Json.Codec.encode patterns).compact, ""] ++ [lead ++ text]) := by
  have hheading : "Here is a list of defined text:\n" = heading ++ "\n" := by decide
  have hlead : "\n\nFind the predefined text that matches the following text: " =
      "\n" ++ ("" ++ ("\n" ++ lead)) := by decide
  have hlines (a b c d : String) : "\n".intercalate ([a, b, c] ++ [d]) =
      a ++ "\n" ++ b ++ "\n" ++ c ++ "\n" ++ d := rfl
  rw [hlines]
  unfold question
  rw [hheading, hlead]
  simp only [String.append_assoc]

private theorem linesOf_question (patterns : List String) (text : String) :
    linesOf (question patterns text) =
      heading :: (Json.Codec.encode patterns).compact :: "" :: linesOf (lead ++ text) := by
  have hlines : ∀ l ∈ [heading, (Json.Codec.encode patterns).compact, ""], IsLine l := by
    intro l hl
    simp only [List.mem_cons, List.not_mem_nil, or_false] at hl
    rcases hl with rfl | rfl | rfl
    · unfold IsLine
      decide
    · exact fun hbreak => absurd (Json.le_toNat_of_mem_compact hbreak) (by decide)
    · unfold IsLine
      decide
  rw [question_eq_intercalate, linesOf_intercalate hlines]
  rfl

/-- Lookups are asked with one question only if they are the same. -/
theorem question_eq_question_iff (patterns patterns' : List String) (text text' : String) :
    question patterns text = question patterns' text' ↔ patterns = patterns' ∧ text = text' := by
  constructor
  · intro h
    have hlines := congrArg linesOf h
    rw [linesOf_question, linesOf_question] at hlines
    -- The list is a line of its own, so the two questions have the same list and the same rest.
    simp only [List.cons.injEq, true_and] at hlines
    obtain ⟨hlist, hlast⟩ := hlines
    have hpatterns : some patterns = some patterns' := by
      rw [← Json.decodeText?_compact patterns, hlist, Json.decodeText?_compact]
    have htext : text.toList = text'.toList := by
      have hsame := congrArg String.toList (linesOf_injective hlast)
      rw [String.toList_append, String.toList_append] at hsame
      exact List.append_cancel_left hsame
    exact ⟨Option.some.inj hpatterns, String.toList_inj.1 htext⟩
  · rintro ⟨rfl, rfl⟩
    rfl

example : key ["a", "b"] "c" = key ["a"] "b\nc" ∧
    question ["a", "b"] "c" ≠ question ["a"] "b\nc" := by decide +kernel

end Matcher
end StepScript
