import StepScript.Json.Document
import StepScript.Json.Writer

/-!
Written JSON is read back. `Document.ofValue` is the document that a value without numbers is
written as, and a value is legible when its text, in either style and whatever follows it, is read
as that document. Texts, arrays of legible values and objects of legible values are legible.
-/

set_option autoImplicit false
set_option relaxedAutoImplicit false

namespace StepScript.Json

open Document

mutual

/-- The document that a value is written as; numbers are left out. -/
def Document.ofValue : Json → Document
  | .null | .number _ => .null
  | .bool b => .bool b
  | .string s => .string (some s)
  | .array items => .array (ofValues items)
  | .object members => .object (ofMembers members)

def Document.ofValues : List Json → List Document
  | [] => []
  | item :: items => ofValue item :: ofValues items

def Document.ofMembers : List (String × Json) → List (Option String × Document)
  | [] => []
  | (name, v) :: members => (some name, ofValue v) :: ofMembers members

end

/-! ## Strings -/

private def pieceOf (c : Char) : Piece :=
  if c.toNat < 32 ∧ c.toNat ∉ [8, 9, 10, 12, 13] then .unit c.toNat else .char c

private def withPiece (p : Piece) (r : List Piece × Text.Signs) : List Piece × Text.Signs :=
  (p :: r.1, r.2)

private theorem hexValue?_hexDigit : ∀ n < 16, hexValue? (hexDigit n) = some n := by decide

private theorem stringPieces?_escaped {c d : Char} (h : escaped? c = some d) (fuel : Nat)
    (rest : Text.Signs) :
    stringPieces? (fuel + 1) (some '\\' :: some c :: rest) =
      (stringPieces? fuel rest).map (withPiece (.char d)) := by
  have hu : c ≠ 'u' := by
    rintro rfl
    simp [escaped?] at h
  simp only [stringPieces?, h]
  cases stringPieces? fuel rest <;> rfl

private theorem stringPieces?_unit {a b : Char} {m n : Nat} (ha : hexValue? a = some m)
    (hb : hexValue? b = some n) (fuel : Nat) (rest : Text.Signs) :
    stringPieces? (fuel + 1)
        (some '\\' :: some 'u' :: some '0' :: some '0' :: some a :: some b :: rest) =
      (stringPieces? fuel rest).map (withPiece (.unit (m * 16 + n))) := by
  have h0 : hexValue? '0' = some 0 := rfl
  have hfour : hexFour? (some '0' :: some '0' :: some a :: some b :: rest) =
      some (m * 16 + n, rest) := by
    simp [hexFour?, h0, ha, hb]
  simp only [stringPieces?, hfour, Option.bind_eq_bind, Option.bind_some]
  cases stringPieces? fuel rest <;> rfl

private theorem stringPieces?_plain {c : Char} (hq : c ≠ '"') (hb : c ≠ '\\') (h : 32 ≤ c.toNat)
    (fuel : Nat) (rest : Text.Signs) :
    stringPieces? (fuel + 1) (some c :: rest) =
      (stringPieces? fuel rest).map (withPiece (.char c)) := by
  have hc : ¬ c.toNat < 32 := by omega
  have hstep : stringPieces? (fuel + 1) (some c :: rest) =
      if c.toNat < 32 then none
      else (stringPieces? fuel rest).bind fun r => some (withPiece (.char c) r) := by
    rw [stringPieces?.eq_def]
    split <;> simp_all [withPiece]
  rw [hstep, if_neg hc]
  cases stringPieces? fuel rest <;> rfl

private theorem stringPieces?_escapeChar (c : Char) (fuel : Nat) (rest : Text.Signs) :
    stringPieces? (fuel + 1) ((escapeChar c).map some ++ rest) =
      (stringPieces? fuel rest).map (withPiece (pieceOf c)) := by
  unfold escapeChar
  split
  case h_1 => exact stringPieces?_escaped rfl fuel rest
  case h_2 => exact stringPieces?_escaped rfl fuel rest
  case h_3 => exact stringPieces?_escaped rfl fuel rest
  case h_4 => exact stringPieces?_escaped rfl fuel rest
  case h_5 => exact stringPieces?_escaped rfl fuel rest
  case h_6 hquote hslash hline hreturn htab =>
    have hof : Char.ofNat c.toNat = c := Char.ofNat_toNat c
    by_cases h8 : c.toNat = 8
    · have hc : c = Char.ofNat 8 := by rw [← hof, h8]
      subst hc
      exact stringPieces?_escaped rfl fuel rest
    by_cases h12 : c.toNat = 12
    · have hc : c = Char.ofNat 12 := by rw [← hof, h12]
      subst hc
      exact stringPieces?_escaped rfl fuel rest
    have h9 : c.toNat ≠ 9 := fun h => htab (by rw [← hof, h])
    have h10 : c.toNat ≠ 10 := fun h => hline (by rw [← hof, h])
    have h13 : c.toNat ≠ 13 := fun h => hreturn (by rw [← hof, h])
    by_cases h32 : c.toNat < 32
    · have hm := hexValue?_hexDigit (c.toNat / 16) (by omega)
      have hn := hexValue?_hexDigit (c.toNat % 16) (by omega)
      have hpiece : pieceOf c = .unit (c.toNat / 16 * 16 + c.toNat % 16) := by
        rw [show c.toNat / 16 * 16 + c.toNat % 16 = c.toNat by omega]
        simp [pieceOf, h32, h8, h9, h10, h12, h13]
      rw [hpiece, ← stringPieces?_unit hm hn]
      simp [h8, h12, h32]
    · have hpiece : pieceOf c = .char c := by simp [pieceOf, h32]
      rw [hpiece, ← stringPieces?_plain hquote hslash (by omega)]
      simp [h8, h12, h32]

private theorem pieceChars?_unit {n : Nat} (h : n < 0xD800) (ps : List Piece) :
    pieceChars? (.unit n :: ps) = (pieceChars? ps).map (Char.ofNat n :: ·) := by
  have hhigh : isHigh n = false := by
    simp only [isHigh, Bool.and_eq_false_iff, decide_eq_false_iff_not]
    omega
  have hlow : isLow n = false := by
    simp only [isLow, Bool.and_eq_false_iff, decide_eq_false_iff_not]
    omega
  cases ps with
  | nil => simp [pieceChars?, hhigh, hlow]
  | cons p ps => cases p <;> simp [pieceChars?, hhigh, hlow]

private theorem pieceChars?_pieceOf (c : Char) (ps : List Piece) :
    pieceChars? (pieceOf c :: ps) = (pieceChars? ps).map (c :: ·) := by
  unfold pieceOf
  split
  next h => rw [pieceChars?_unit (by omega), Char.ofNat_toNat]
  next => rfl

private theorem stringPieces?_flatMap_escapeChar (s : List Char) (fuel : Nat) (h : s.length < fuel)
    (rest : Text.Signs) :
    stringPieces? fuel ((s.flatMap escapeChar).map some ++ some '"' :: rest) =
      some (s.map pieceOf, rest) := by
  induction s generalizing fuel with
  | nil =>
    obtain ⟨fuel, rfl⟩ := Nat.exists_eq_add_of_lt h
    rfl
  | cons c s ih =>
    obtain ⟨fuel, rfl⟩ : ∃ n, fuel = n + 1 := ⟨fuel - 1, by omega⟩
    rw [List.flatMap_cons, List.map_append, List.append_assoc, stringPieces?_escapeChar,
      ih fuel (by simpa using h)]
    rfl

private theorem pieceChars?_map_pieceOf (s : List Char) :
    pieceChars? (s.map pieceOf) = some s := by
  induction s with
  | nil => rfl
  | cons c s ih => rw [List.map_cons, pieceChars?_pieceOf, ih, Option.map_some]

private theorem length_le_length_flatMap_escapeChar (s : List Char) :
    s.length ≤ (s.flatMap escapeChar).length := by
  induction s with
  | nil => exact Nat.le_refl _
  | cons c s ih =>
    have hc : 1 ≤ (escapeChar c).length := by
      unfold escapeChar
      repeat' split
      all_goals simp
    simp only [List.flatMap_cons, List.length_append, List.length_cons]
    omega

private theorem string?_quote (s : String) (rest : Text.Signs) :
    string? ((quote s).tail.map some ++ rest) = some (some s, rest) := by
  have hlen := length_le_length_flatMap_escapeChar s.toList
  have hsigns : (quote s).tail.map some ++ rest =
      (s.toList.flatMap escapeChar).map some ++ some '"' :: rest := by
    simp [quote]
  have hfuel : s.toList.length <
      ((s.toList.flatMap escapeChar).map some ++ some '"' :: rest).length + 1 := by
    simp only [List.length_append, List.length_map]
    omega
  rw [hsigns, string?, stringPieces?_flatMap_escapeChar _ _ hfuel]
  simp [pieceChars?_map_pieceOf]

/-! ## Gaps -/

private def IsBlank (cs : List Char) : Prop := ∀ c ∈ cs, isGap c = true

private theorem isBlank_lineBreak (style : Style) : IsBlank style.lineBreak := by
  intro c hc
  cases style with
  | compact => simp [Style.lineBreak] at hc
  | indented depth =>
    simp only [Style.lineBreak, List.mem_cons, List.mem_replicate] at hc
    rcases hc with rfl | ⟨-, rfl⟩ <;> rfl

private theorem skipGap_append {gap : List Char} (h : IsBlank gap) (cs : Text.Signs) :
    skipGap (gap.map some ++ cs) = skipGap cs := by
  refine List.dropWhile_append_of_pos fun a ha => ?_
  obtain ⟨c, hc, rfl⟩ := List.mem_map.1 ha
  simpa using h c hc

private theorem skipGap_skipGap (cs : Text.Signs) : skipGap (skipGap cs) = skipGap cs := by
  induction cs with
  | nil => rfl
  | cons a cs ih =>
    by_cases ha : a.any isGap = true
    · have hskip : skipGap (a :: cs) = skipGap cs := by simp [skipGap, ha]
      rw [hskip, ih]
    · have hskip : skipGap (a :: cs) = a :: cs := by simp [skipGap, ha]
      rw [hskip, hskip]

private theorem value?_skipGap (fuel : Nat) (cs : Text.Signs) :
    value? fuel (skipGap cs) = value? fuel cs := by
  cases fuel with
  | zero => rfl
  | succ fuel => simp only [value?, skipGap_skipGap]

private theorem items?_skipGap (fuel : Nat) (cs : Text.Signs) :
    Document.items? fuel (skipGap cs) = Document.items? fuel cs := by
  cases fuel with
  | zero => rfl
  | succ fuel => simp only [Document.items?, value?_skipGap]

private theorem members?_skipGap (fuel : Nat) (cs : Text.Signs) :
    members? fuel (skipGap cs) = members? fuel cs := by
  cases fuel with
  | zero => rfl
  | succ fuel => simp only [members?, skipGap_skipGap]

private theorem value?_append {gap : List Char} (h : IsBlank gap) (fuel : Nat)
    (cs : Text.Signs) : value? fuel (gap.map some ++ cs) = value? fuel cs := by
  rw [← value?_skipGap, skipGap_append h, value?_skipGap]

private theorem items?_append {gap : List Char} (h : IsBlank gap) (fuel : Nat)
    (cs : Text.Signs) : Document.items? fuel (gap.map some ++ cs) = Document.items? fuel cs := by
  rw [← items?_skipGap, skipGap_append h, items?_skipGap]

private theorem members?_append {gap : List Char} (h : IsBlank gap) (fuel : Nat)
    (cs : Text.Signs) : members? fuel (gap.map some ++ cs) = members? fuel cs := by
  rw [← members?_skipGap, skipGap_append h, members?_skipGap]

/-! ## Brackets -/

private theorem value?_closing (fuel : Nat) (rest : Text.Signs) :
    value? fuel (some ']' :: rest) = none := by
  cases fuel <;> rfl

private theorem value?_array {fuel : Nat} {cs rest : Text.Signs} {items : List Document}
    (h : Document.items? fuel cs = some (items, rest)) :
    value? (fuel + 1) (some '[' :: cs) = some (.array items, rest) := by
  have hopen : skipGap (some '[' :: cs) = some '[' :: cs := rfl
  rw [← items?_skipGap] at h
  simp only [value?, hopen]
  split
  next closed hc =>
    rw [hc] at h
    cases fuel with
    | zero => cases h
    | succ fuel => simp [Document.items?, value?_closing] at h
  next => rw [h, Option.map_some]

private theorem value?_object {fuel : Nat} {cs rest : Text.Signs}
    {members : List (Option String × Document)} (h : members? fuel cs = some (members, rest)) :
    value? (fuel + 1) (some '\x7b' :: cs) = some (.object members, rest) := by
  have hopen : skipGap (some '\x7b' :: cs) = some '\x7b' :: cs := rfl
  rw [← members?_skipGap] at h
  simp only [value?, hopen]
  split
  next closed hc =>
    rw [hc] at h
    cases fuel <;> cases h
  next => rw [h, Option.map_some]

/-! ## Values -/

/-- A value's text, in either style and whatever follows it, is read as the value's document. -/
def Legible (v : Json) : Prop :=
  ∀ (style : Style) (fuel : Nat) (rest : Text.Signs), (chars style v).length ≤ fuel →
    value? fuel ((chars style v).map some ++ rest) = some (.ofValue v, rest)

private theorem exists_succ_of_length_le {style : Style} {v : Json} {fuel : Nat}
    (hv : ∀ n, v ≠ .number n) (h : (chars style v).length ≤ fuel) : ∃ n, fuel = n + 1 := by
  have hpos := List.length_pos_iff.2 (chars_ne_nil style hv)
  exact ⟨fuel - 1, by omega⟩

theorem legible_string (s : String) : Legible (.string s) := by
  intro style fuel rest h
  obtain ⟨fuel, rfl⟩ := exists_succ_of_length_le (by simp) h
  have hopen : (chars style (.string s)).map some ++ rest =
      some '"' :: ((quote s).tail.map some ++ rest) := by
    simp [chars, quote]
  have hskip (cs : Text.Signs) : skipGap (some '"' :: cs) = some '"' :: cs := rfl
  simp only [hopen, value?, hskip, string?_quote, Option.map_some]
  rfl

private theorem items?_chars (style : Style) {gap : List Char} (hgap : IsBlank gap)
    (item : Json) (items : List Json) (hitem : Legible item) (hitems : ∀ v ∈ items, Legible v)
    (fuel : Nat) (rest : Text.Signs)
    (h : (chars style item).length + (itemChars style items).length < fuel) :
    Document.items? fuel ((chars style item ++ itemChars style items ++ gap).map some ++
      some ']' :: rest) = some (Document.ofValues (item :: items), rest) := by
  induction items generalizing item fuel with
  | nil =>
    obtain ⟨fuel, rfl⟩ : ∃ n, fuel = n + 1 := ⟨fuel - 1, by omega⟩
    have hskip : skipGap (gap.map some ++ some ']' :: rest) = some ']' :: rest := by
      rw [skipGap_append hgap]
      rfl
    simp only [itemChars, List.append_nil, List.map_append, List.append_assoc, Document.items?]
    rw [hitem style fuel _ (by omega)]
    simp only [hskip]
    rfl
  | cons next items ih =>
    obtain ⟨fuel, rfl⟩ : ∃ n, fuel = n + 1 := ⟨fuel - 1, by omega⟩
    simp only [itemChars, List.cons_append, List.length_cons, List.length_append] at h
    have htail := ih next (hitems next (by simp)) (fun v hv => hitems v (by simp [hv])) fuel
      (by omega)
    have hskip (cs : Text.Signs) : skipGap (some ',' :: cs) = some ',' :: cs := rfl
    simp only [itemChars, List.cons_append, List.map_append, List.map_cons, List.append_assoc,
      Document.items?] at htail ⊢
    rw [hitem style fuel _ (by omega)]
    simp only [hskip, items?_append (isBlank_lineBreak style)]
    rw [htail]
    rfl

theorem legible_array {items : List Json} (h : ∀ v ∈ items, Legible v) :
    Legible (.array items) := by
  intro style fuel rest hfuel
  cases items with
  | nil =>
    obtain ⟨fuel, rfl⟩ := exists_succ_of_length_le (by simp) hfuel
    rfl
  | cons item items =>
    simp only [chars, List.cons_append, List.length_cons, List.length_append,
      List.length_nil] at hfuel
    obtain ⟨fuel, rfl⟩ : ∃ n, fuel = n + 1 := ⟨fuel - 1, by omega⟩
    have hread := items?_chars style.inner (isBlank_lineBreak style) item items
      (h item (by simp)) (fun v hv => h v (by simp [hv])) fuel rest (by omega)
    rw [← items?_append (isBlank_lineBreak style.inner)] at hread
    have hread := value?_array hread
    simpa [chars, Document.ofValue] using hread

private theorem members?_memberChars (style : Style) (m : String × Json) (hm : Legible m.2)
    (fuel : Nat) (cs : Text.Signs) (h : (chars style m.2).length ≤ fuel) :
    members? (fuel + 1) ((memberChars style m).map some ++ cs) =
      match skipGap cs with
      | some '\x7d' :: rest => some ([(some m.1, .ofValue m.2)], rest)
      | some ',' :: rest => (members? fuel rest).map fun r => ((some m.1, .ofValue m.2) :: r.1, r.2)
      | _ => none := by
  obtain ⟨name, v⟩ := m
  have hcolon : IsBlank style.colon.tail := by
    cases style <;> simp [Style.colon, IsBlank, isGap]
  have hopen : (memberChars style (name, v)).map some ++ cs =
      some '"' :: ((quote name).tail.map some ++ (some ':' ::
        (style.colon.tail.map some ++ ((chars style v).map some ++ cs)))) := by
    cases style <;> simp [memberChars, quote, Style.colon]
  have hquote (rest : Text.Signs) : skipGap (some '"' :: rest) = some '"' :: rest := rfl
  have hskip (rest : Text.Signs) : skipGap (some ':' :: rest) = some ':' :: rest := rfl
  rw [hopen]
  simp only [members?, hquote, string?_quote, hskip, value?_append hcolon]
  exact (hm style fuel cs h).symm ▸ rfl

private theorem members?_chars (style : Style) {gap : List Char} (hgap : IsBlank gap)
    (m : String × Json) (members : List (String × Json)) (hm : Legible m.2)
    (hmembers : ∀ n ∈ members, Legible n.2) (fuel : Nat) (rest : Text.Signs)
    (h : (memberChars style m).length + (membersChars style members).length < fuel) :
    members? fuel ((memberChars style m ++ membersChars style members ++ gap).map some ++
      some '\x7d' :: rest) = some (Document.ofMembers (m :: members), rest) := by
  have hlen (n : String × Json) : (chars style n.2).length ≤ (memberChars style n).length := by
    obtain ⟨name, v⟩ := n
    simp only [memberChars, List.length_append]
    omega
  have hmlen := hlen m
  induction members generalizing m fuel with
  | nil =>
    obtain ⟨fuel, rfl⟩ : ∃ n, fuel = n + 1 := ⟨fuel - 1, by omega⟩
    have hskip : skipGap (gap.map some ++ some '\x7d' :: rest) = some '\x7d' :: rest := by
      rw [skipGap_append hgap]
      rfl
    rw [membersChars, List.append_nil, List.map_append, List.append_assoc,
      members?_memberChars style m hm fuel _ (by omega), hskip]
    rfl
  | cons next members ih =>
    obtain ⟨fuel, rfl⟩ : ∃ n, fuel = n + 1 := ⟨fuel - 1, by omega⟩
    simp only [membersChars, List.cons_append, List.length_cons, List.length_append] at h
    have htail := ih next (hmembers next (by simp)) (fun n hn => hmembers n (by simp [hn])) fuel
      (by omega) (hlen next)
    have hskip (cs : Text.Signs) : skipGap (some ',' :: cs) = some ',' :: cs := rfl
    simp only [membersChars, List.cons_append, List.map_append, List.map_cons,
      List.append_assoc] at htail ⊢
    rw [members?_memberChars style m hm fuel _ (by omega)]
    simp only [hskip, members?_append (isBlank_lineBreak style)]
    rw [htail]
    rfl

theorem legible_object {members : List (String × Json)} (h : ∀ m ∈ members, Legible m.2) :
    Legible (.object members) := by
  intro style fuel rest hfuel
  cases members with
  | nil =>
    obtain ⟨fuel, rfl⟩ := exists_succ_of_length_le (by simp) hfuel
    rfl
  | cons m members =>
    simp only [chars, List.cons_append, List.length_cons, List.length_append,
      List.length_nil] at hfuel
    obtain ⟨fuel, rfl⟩ : ∃ n, fuel = n + 1 := ⟨fuel - 1, by omega⟩
    have hread := members?_chars style.inner (isBlank_lineBreak style) m members
      (h m (by simp)) (fun n hn => h n (by simp [hn])) fuel rest (by omega)
    rw [← members?_append (isBlank_lineBreak style.inner)] at hread
    have hread := value?_object hread
    simpa [chars, Document.ofValue] using hread

theorem ofText?_chars {v : Json} (h : Legible v) (style : Style) :
    Document.ofText? (String.ofList (chars style v)) = some (.ofValue v) := by
  have hread := h style (2 * (chars style v).length + 1) [] (by omega)
  rw [List.append_nil] at hread
  simp [Document.ofText?, Document.ofSigns?, Text.signsOfText, hread, skipGap]

end StepScript.Json
