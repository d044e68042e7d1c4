import Mathlib.Data.List.Lex
import Mathlib.Data.String.Basic
import Mathlib.Tactic.SplitIfs

/-!
The order of texts is that of their bytes. The codes of two characters have a first byte in which
they differ, and the smaller character has the smaller byte there; so texts, which are compared
character by character, can as well be compared byte by byte.
-/

set_option autoImplicit false
set_option relaxedAutoImplicit false

namespace StepScript.Text

def utf8 (s : String) : List UInt8 := s.toUTF8.data.toList

private theorem utf8_eq_flatMap (s : String) : utf8 s = s.toList.flatMap String.utf8EncodeChar := by
  have hbytes : s.toUTF8 = s.toList.utf8Encode := String.utf8Encode_toList.symm
  rw [utf8, hbytes, List.utf8Encode]
  simp

private def Yields : List UInt8 → List UInt8 → Prop
  | a :: as, b :: bs => a < b ∨ a = b ∧ Yields as bs
  | _, _ => False

private theorem Yields.append_lt {xs ys : List UInt8} (h : Yields xs ys) (us vs : List UInt8) :
    xs ++ us < ys ++ vs := by
  induction xs generalizing ys with
  | nil => exact h.elim
  | cons x xs ih =>
    cases ys with
    | nil => exact h.elim
    | cons y ys =>
      rw [List.cons_append, List.cons_append, List.cons_lt_cons_iff]
      exact h.imp_right fun hrest => ⟨hrest.1, ih hrest.2⟩

private theorem not_yields_nil (xs : List UInt8) : ¬ Yields xs [] := by
  cases xs <;> exact id

private theorem yields_ofNat_cons {m n : Nat} {as bs : List UInt8} (hm : m < 256) (hn : n < 256) :
    Yields (UInt8.ofNat m :: as) (UInt8.ofNat n :: bs) ↔ m < n ∨ m = n ∧ Yields as bs := by
  rw [Yields, UInt8.lt_iff_toNat_lt, ← UInt8.toNat_inj, UInt8.toNat_ofNat_of_lt' hm,
    UInt8.toNat_ofNat_of_lt' hn]

private theorem digit_lt_or (v w n : Nat) (h : v / n < w / n) :
    v / (n * 64) < w / (n * 64) ∨ v / (n * 64) = w / (n * 64) ∧ v / n % 64 < w / n % 64 := by
  rw [← Nat.div_div_eq_div_mul, ← Nat.div_div_eq_div_mul]
  omega

private theorem yields_utf8EncodeChar {c d : Char} (h : c < d) :
    Yields (String.utf8EncodeChar c) (String.utf8EncodeChar d) := by
  have hlt : c.val.toNat < d.val.toNat := h
  have hmax : d.val.toNat < 1114112 := by
    rcases d.valid with hlow | hhigh
    · exact hlow.trans (by decide)
    · exact hhigh.2
  unfold String.utf8EncodeChar
  generalize c.val.toNat = v at hlt
  generalize d.val.toNat = w at hlt hmax
  have hfirst : v / 262144 % 8 = v / 262144 ∧ w / 262144 % 8 = w / 262144 := by omega
  have hlast : v / 64 < w / 64 ∨ v / 64 = w / 64 ∧ v % 64 < w % 64 := by omega
  have hsecond := digit_lt_or v w 64
  have hthird := digit_lt_or v w 4096
  -- Codes of different length differ in their first bytes, others in the first digit that differs.
  dsimp only
  split_ifs <;> simp (disch := omega) only [yields_ofNat_cons, not_yields_nil, and_false, or_false]
    <;> omega

private theorem flatMap_lt_flatMap {cs ds : List Char} (h : cs < ds) :
    cs.flatMap String.utf8EncodeChar < ds.flatMap String.utf8EncodeChar := by
  induction cs generalizing ds with
  | nil =>
    cases ds with
    | nil => exact absurd h (List.not_lt_nil [])
    | cons d ds =>
      have hne : String.utf8EncodeChar d ≠ [] := String.utf8EncodeChar_ne_nil
      obtain ⟨byte, rest, hcode⟩ := List.exists_cons_of_ne_nil hne
      rw [List.flatMap_cons, hcode]
      exact List.nil_lt_cons byte _
  | cons c cs ih =>
    cases ds with
    | nil => exact absurd h (List.not_lt_nil _)
    | cons d ds =>
      rw [List.flatMap_cons, List.flatMap_cons]
      rcases List.cons_lt_cons_iff.1 h with hlt | ⟨rfl, hrest⟩
      · exact (yields_utf8EncodeChar hlt).append_lt _ _
      · exact List.append_left_lt (ih hrest)

/-- Texts are in the order of their bytes. -/
theorem utf8_lt_iff {a b : String} : utf8 a < utf8 b ↔ a < b := by
  have hmono {a b : String} (h : a < b) : utf8 a < utf8 b := by
    rw [utf8_eq_flatMap, utf8_eq_flatMap]
    exact flatMap_lt_flatMap (String.lt_iff_toList_lt.1 h)
  refine ⟨fun h => ?_, hmono⟩
  rcases lt_trichotomy a b with hlt | rfl | hgt
  · exact hlt
  · exact absurd h (List.lt_irrefl _)
  · exact absurd h (List.lt_asymm (hmono hgt))

end StepScript.Text
