import StepScript.Proofs.SelectorGrammar

/-!
Printed tag expressions. An expression that was read is printed with a parenthesis around each
conjunction and disjunction, and the printed text splits into just these tokens. Each joint on the
way to a tag takes one step down when they are read again, so the expression comes back if no tag
stands deeper than the limit; else the first thing at fault is the depth.
-/

set_option autoImplicit false
set_option relaxedAutoImplicit false

namespace StepScript.Selector

private def printed : Selector → List Token
  | .any => []
  | .tag text => [.word text]
  | .not inner => .word "not" :: inner.printed
  | .and left right => .opening :: (left.printed ++ .word "and" :: (right.printed ++ [.closing]))
  | .or left right => .opening :: (left.printed ++ .word "or" :: (right.printed ++ [.closing]))

/-- How many negations, conjunctions and disjunctions stand on the way to each leaf. -/
def depths : Selector → List Nat
  | .any => [0]
  | .tag _ => [0]
  | .not inner => inner.depths.map (· + 1)
  | .and left right => (left.depths ++ right.depths).map (· + 1)
  | .or left right => (left.depths ++ right.depths).map (· + 1)

/-! ## Expressions that were read -/

/-- An expression whose leaves are all tags without blanks and parentheses. -/
inductive IsLegible : Selector → Prop
  | tag {w : String} : isTag w = true → (∀ c ∈ w.toList, IsWordChar c) → IsLegible (.tag w)
  | not {inner : Selector} : IsLegible inner → IsLegible (.not inner)
  | and {left right : Selector} : IsLegible left → IsLegible right → IsLegible (.and left right)
  | or {left right : Selector} : IsLegible left → IsLegible right → IsLegible (.or left right)

private theorem Splits.isWordChar_of_mem {cs : List Char} {ts : List Token} (h : Splits cs ts)
    {w : String} (hw : .word w ∈ ts) : ∀ c ∈ w.toList, IsWordChar c := by
  induction h with
  | nil => cases hw
  | opening _ ih => exact ih (by simpa using hw)
  | closing _ ih => exact ih (by simpa using hw)
  | blank _ _ ih => exact ih hw
  | word _ hword _ _ ih =>
    rcases List.mem_cons.1 hw with heq | hrest
    · cases heq
      rwa [String.toList_ofList]
    · exact ih hrest

private theorem isLegible_iterate_not {e : Selector} (h : IsLegible e) (k : Nat) :
    IsLegible (Selector.not^[k] e) := by
  induction k with
  | zero => exact h
  | succ k ih =>
    rw [Function.iterate_succ_apply']
    exact .not ih

private theorem Derives.isLegible {level : Level} {d : Nat} {ts : List Token} {e : Selector}
    (h : Derives level d ts e)
    (hwords : ∀ w, .word w ∈ ts → ∀ c ∈ w.toList, IsWordChar c) : IsLegible e := by
  induction h with
  | tag hhead hlong => exact .tag (isTag_iff.2 ⟨hhead, hlong⟩) (hwords _ List.mem_cons_self)
  | group _ _ ih => exact ih fun w hw => hwords w (by simp [hw])
  | negations k _ _ ih =>
    exact isLegible_iterate_not (ih fun w hw => hwords w (List.mem_append_right _ hw)) k
  | conjunct _ ih => exact ih hwords
  | disjunct _ ih => exact ih hwords
  | and _ _ ihleft ihright =>
    exact .and (ihleft fun w hw => hwords w (by simp [hw])) (ihright fun w hw => hwords w (by simp [hw]))
  | or _ _ ihleft ihright =>
    exact .or (ihleft fun w hw => hwords w (by simp [hw])) (ihright fun w hw => hwords w (by simp [hw]))

private theorem isLegible_of_parse {source : String} {e : Selector} (h : parse source = .ok e) :
    e = .any ∨ IsLegible e := by
  rcases ofTokens_eq_ok_iff.1 (parse_eq_ok_iff.1 h) with ⟨-, hany⟩ | hderives
  · exact .inl hany
  · have hsplits : Splits source.toList (tokens source) := splits_iff.2 rfl
    exact .inr (hderives.isLegible fun w hw => hsplits.isWordChar_of_mem hw)

/-! ## The tokens of the printed text -/

private theorem not_isWordChar_blank : ¬ IsWordChar ' ' := fun h => absurd h.2.2 (by decide)

private theorem not_isWordChar_closing : ¬ IsWordChar ')' := fun h => h.2.1 rfl

private theorem splits_keyword (word : List Char) {cs : List Char} {ts : List Token}
    (hne : word ≠ []) (hword : (word.all fun c => IsWordChar c) = true) (h : Splits cs ts) :
    Splits (word ++ ' ' :: cs) (.word (String.ofList word) :: ts) := by
  refine .word hne (by simpa using hword) ?_ (.blank (by decide) h)
  rintro _ ⟨⟩
  exact not_isWordChar_blank

private theorem splits_pair (keyword : List Char) {left right cs : List Char}
    {ts ts₁ ts₂ : List Token} (hne : keyword ≠ [])
    (hkeyword : (keyword.all fun c => IsWordChar c) = true)
    (hleft : ∀ {more : List Char} {us : List Token}, Splits more us →
      (∀ c ∈ more.head?, ¬ IsWordChar c) → Splits (left ++ more) (ts₁ ++ us))
    (hright : ∀ {more : List Char} {us : List Token}, Splits more us →
      (∀ c ∈ more.head?, ¬ IsWordChar c) → Splits (right ++ more) (ts₂ ++ us))
    (h : Splits cs ts) :
    Splits ('(' :: (left ++ ' ' :: (keyword ++ ' ' :: (right ++ ')' :: cs))))
      (.opening :: (ts₁ ++ .word (String.ofList keyword) :: (ts₂ ++ .closing :: ts))) := by
  have hend : Splits (right ++ ')' :: cs) (ts₂ ++ .closing :: ts) := by
    refine hright (.closing h) ?_
    rintro _ ⟨⟩
    exact not_isWordChar_closing
  refine .opening (hleft (.blank (by decide) (splits_keyword keyword hne hkeyword hend)) ?_)
  rintro _ ⟨⟩
  exact not_isWordChar_blank

private theorem IsLegible.splits {e : Selector} (h : IsLegible e) {cs : List Char}
    {ts : List Token} (hrest : Splits cs ts) (hstop : ∀ c ∈ cs.head?, ¬ IsWordChar c) :
    Splits (e.render.toList ++ cs) (e.printed ++ ts) := by
  induction h generalizing cs ts with
  | @tag w htag hword =>
    have hne : w.toList ≠ [] := by
      intro hnil
      simp [isTag, hnil] at htag
    have hsplits := Splits.word hne hword hstop hrest
    rwa [String.ofList_toList] at hsplits
  | not _ ih =>
    have hsplits := splits_keyword "not".toList (by decide) (by decide) (ih hrest hstop)
    simpa [render, printed, String.toList_append] using hsplits
  | and _ _ ihleft ihright =>
    have hsplits := splits_pair "and".toList (by decide) (by decide) ihleft ihright hrest
    simpa [render, printed, String.toList_append] using hsplits
  | or _ _ ihleft ihright =>
    have hsplits := splits_pair "or".toList (by decide) (by decide) ihleft ihright hrest
    simpa [render, printed, String.toList_append] using hsplits

private theorem IsLegible.tokens_render {e : Selector} (h : IsLegible e) :
    tokens e.render = e.printed := by
  have hsplits : Splits (e.render.toList ++ []) (e.printed ++ []) := h.splits .nil nofun
  rw [List.append_nil, List.append_nil] at hsplits
  exact splits_iff.1 hsplits

/-! ## Reading the tokens back -/

section

variable {keyword : String} {join : Selector → Selector → Selector}
  {operand : List Token → Reading} {tokens after rest : List Token} {left right : Selector}
  {fault : Fault}

private theorem chain_of_error (h : operand tokens = .error fault) :
    chain keyword join operand tokens = .error fault := by
  simp [chain, h]

private theorem chain_of_stop (h : operand tokens = .ok (left, rest))
    (hstop : rest.head? ≠ some (.word keyword)) :
    chain keyword join operand tokens = .ok (left, rest) := by
  simp [chain, h, chainFrom_stop hstop]

private theorem chain_of_pair (hleft : operand tokens = .ok (left, .word keyword :: after))
    (hright : operand after = .ok (right, rest)) (hstop : rest.head? ≠ some (.word keyword)) :
    chain keyword join operand tokens = .ok (join left right, rest) := by
  simp [chain, hleft, chainFrom_keyword hright, chainFrom_stop hstop]

private theorem chain_of_error_right (hleft : operand tokens = .ok (left, .word keyword :: after))
    (hright : operand after = .error fault) :
    chain keyword join operand tokens = .error fault := by
  simp [chain, hleft, chainFrom, hright]

private theorem joined_of_error (h : operand tokens = .error fault) :
    joined operand tokens = .error fault :=
  chain_of_error (chain_of_error h)

private theorem joined_of_stop (h : operand tokens = .ok (left, rest))
    (hstop : ∀ w, rest.head? ≠ some (.word w)) : joined operand tokens = .ok (left, rest) :=
  chain_of_stop (chain_of_stop h (hstop "and")) (hstop "or")

end

private structure Joins (keyword : String) (join : Selector → Selector → Selector) : Prop where
  both : ∀ {operand : List Token → Reading} {tokens after rest : List Token} {left right : Selector},
    operand tokens = .ok (left, .word keyword :: after) →
    operand after = .ok (right, .closing :: rest) →
    joined operand tokens = .ok (join left right, .closing :: rest)
  fault : ∀ {operand : List Token → Reading} {tokens after : List Token} {left : Selector}
    {fault : Fault}, operand tokens = .ok (left, .word keyword :: after) →
    operand after = .error fault → joined operand tokens = .error fault

private theorem joins_and : Joins "and" .and where
  both hleft hright := chain_of_stop (chain_of_pair hleft hright (by simp)) (by simp)
  fault hleft hright := chain_of_error (chain_of_error_right hleft hright)

private theorem joins_or : Joins "or" .or where
  both hleft hright :=
    chain_of_pair (chain_of_stop hleft (by simp)) (chain_of_stop hright (by simp)) (by simp)
  fault hleft hright := chain_of_error_right (chain_of_stop hleft (by simp)) (chain_of_error hright)

/-- No leaf of an expression stands behind more joints than there is room for. -/
def FitsIn (e : Selector) (room : Nat) : Prop := ∀ n ∈ e.depths, n ≤ room

instance (e : Selector) (room : Nat) : Decidable (e.FitsIn room) :=
  inferInstanceAs (Decidable (∀ n ∈ e.depths, n ≤ room))

private theorem depths_ne_nil (e : Selector) : e.depths ≠ [] := by
  induction e with
  | any => simp [depths]
  | tag _ => simp [depths]
  | not _ ih => simp [depths, ih]
  | and _ _ ih _ => simp [depths, ih]
  | or _ _ ih _ => simp [depths, ih]

private theorem forall_joint_iff {ns : List Nat} (hne : ns ≠ []) {room : Nat} :
    (∀ n ∈ ns.map (· + 1), n ≤ room) ↔ ∃ less, room = less + 1 ∧ ∀ n ∈ ns, n ≤ less := by
  cases room with
  | zero =>
    obtain ⟨n, ns, rfl⟩ := List.exists_cons_of_ne_nil hne
    simp
  | succ room => simp

private theorem fitsIn_not_iff {inner : Selector} {room : Nat} :
    inner.not.FitsIn room ↔ ∃ less, room = less + 1 ∧ inner.FitsIn less :=
  forall_joint_iff inner.depths_ne_nil

private theorem fitsIn_pair_iff {left right : Selector} {room : Nat} :
    (∀ n ∈ (left.depths ++ right.depths).map (· + 1), n ≤ room) ↔
      ∃ less, room = less + 1 ∧ left.FitsIn less ∧ right.FitsIn less := by
  rw [forall_joint_iff (by simp [left.depths_ne_nil])]
  simp only [List.forall_mem_append]
  rfl

private theorem fitsIn_and_iff {left right : Selector} {room : Nat} :
    (left.and right).FitsIn room ↔ ∃ less, room = less + 1 ∧ left.FitsIn less ∧ right.FitsIn less :=
  fitsIn_pair_iff

private theorem fitsIn_or_iff {left right : Selector} {room : Nat} :
    (left.or right).FitsIn room ↔ ∃ less, room = less + 1 ∧ left.FitsIn less ∧ right.FitsIn less :=
  fitsIn_pair_iff

private theorem IsLegible.operand_of_fitsIn {e : Selector} (h : IsLegible e) {room : Nat}
    (hroom : e.FitsIn room) (rest : List Token) :
    operand room (e.printed ++ rest) = .ok (e, rest) := by
  induction h generalizing room rest with
  | tag htag _ =>
    rw [printed, List.singleton_append, operand.eq_def]
    simp [ne_not_of_isTag htag, htag]
  | not _ ih =>
    obtain ⟨less, rfl, hless⟩ := fitsIn_not_iff.1 hroom
    simp [printed, operand, ih hless]
  | and _ _ ihleft ihright =>
    obtain ⟨less, rfl, hleft, hright⟩ := fitsIn_and_iff.1 hroom
    have hjoined := joins_and.both (ihleft hleft _) (ihright hright (.closing :: rest))
    simp [printed, operand, hjoined]
  | or _ _ ihleft ihright =>
    obtain ⟨less, rfl, hleft, hright⟩ := fitsIn_or_iff.1 hroom
    have hjoined := joins_or.both (ihleft hleft _) (ihright hright (.closing :: rest))
    simp [printed, operand, hjoined]

private theorem joined_of_deep {keyword : String} {join : Selector → Selector → Selector}
    (hjoins : Joins keyword join) {left right : Selector} {room : Nat}
    (hlegible : IsLegible left)
    (hleft : ¬ left.FitsIn room → ∀ rest, operand room (left.printed ++ rest) = .error .tooDeep)
    (hright : ¬ right.FitsIn room → ∀ rest, operand room (right.printed ++ rest) = .error .tooDeep)
    (rest : List Token) (hdeep : ¬ (left.FitsIn room ∧ right.FitsIn room)) :
    joined (operand room) (left.printed ++ .word keyword :: (right.printed ++ rest)) =
      .error .tooDeep := by
  -- The left part is refused, or it is read and the right one is refused behind it.
  by_cases hfits : left.FitsIn room
  · have hsecond := hright (fun hfits' => hdeep ⟨hfits, hfits'⟩) rest
    exact hjoins.fault (hlegible.operand_of_fitsIn hfits _) hsecond
  · exact joined_of_error (hleft hfits _)

private theorem IsLegible.operand_of_not_fitsIn {e : Selector} (h : IsLegible e) {room : Nat}
    (hroom : ¬ e.FitsIn room) (rest : List Token) :
    operand room (e.printed ++ rest) = .error .tooDeep := by
  -- Where a negation or a joint leaves no room for a part of it, the part is refused.
  induction h generalizing room rest with
  | tag _ _ => simp [FitsIn, depths] at hroom
  | not _ ih =>
    cases room with
    | zero => simp [printed, operand]
    | succ room =>
      have hinner := ih fun hfits => hroom (fitsIn_not_iff.2 ⟨room, rfl, hfits⟩)
      simp [printed, operand, hinner]
  | and hlegible _ ihleft ihright =>
    cases room with
    | zero => simp [printed, operand]
    | succ room =>
      have hjoined := joined_of_deep joins_and hlegible ihleft ihright (.closing :: rest)
        fun hfits => hroom (fitsIn_and_iff.2 ⟨room, rfl, hfits⟩)
      simp [printed, operand, hjoined]
  | or hlegible _ ihleft ihright =>
    cases room with
    | zero => simp [printed, operand]
    | succ room =>
      have hjoined := joined_of_deep joins_or hlegible ihleft ihright (.closing :: rest)
        fun hfits => hroom (fitsIn_or_iff.2 ⟨room, rfl, hfits⟩)
      simp [printed, operand, hjoined]

/-! ## Whole texts -/

private theorem IsLegible.printed_ne_nil {e : Selector} (h : IsLegible e) : e.printed ≠ [] := by
  cases h <;> simp [printed]

private theorem IsLegible.parse_render {e : Selector} (h : IsLegible e) :
    parse e.render =
      if e.FitsIn nestingLimit then .ok e else .error (.malformed e.render (.selector .tooDeep)) := by
  have hsome : e.printed.isEmpty = false := by simpa using h.printed_ne_nil
  unfold parse ofTokens
  rw [h.tokens_render, hsome]
  by_cases hfits : e.FitsIn nestingLimit
  · have hread := h.operand_of_fitsIn hfits []
    rw [List.append_nil] at hread
    rw [if_pos hfits, joined_of_stop hread nofun]
    rfl
  · have hread := h.operand_of_not_fitsIn hfits []
    rw [List.append_nil] at hread
    rw [if_neg hfits, joined_of_error hread]
    rfl

/-- What was read is printed, and comes back when that is read again, unless there are more than 64
joints on the way to a leaf: then the printed text is nested too deeply, and nothing else is wrong
with it. -/
theorem parse_render_of_parse {source : String} {e : Selector} (h : parse source = .ok e) :
    (parse e.render =
      if ∀ n ∈ e.depths, n ≤ 64 then .ok e
      else .error (.malformed e.render (.selector .tooDeep))) ∧
    Script.Fault.message (.selector .tooDeep) =
      "invalid tag expression: expression is nested too deeply" ∧
    ∀ e', parse e.render = .ok e' → ∀ tags, e'.accepts tags = e.accepts tags := by
  have hparse : parse e.render =
      if ∀ n ∈ e.depths, n ≤ 64 then .ok e
      else .error (.malformed e.render (.selector .tooDeep)) := by
    rcases isLegible_of_parse h with rfl | hlegible
    · rfl
    · exact hlegible.parse_render
  refine ⟨hparse, by decide, fun e' he' tags => ?_⟩
  rw [hparse] at he'
  split at he'
  · cases he'
    rfl
  · cases he'

/-! ## A long chain -/

def chainOf : Nat → Selector
  | 0 => .tag "@a"
  | n + 1 => .and (chainOf n) (.tag "@a")

def chainSource (n : Nat) : String :=
  String.ofList ('@' :: 'a' :: (List.replicate n [' ', 'a', 'n', 'd', ' ', '@', 'a']).flatten)

private theorem parse_ofList {cs : List Char} {e : Selector}
    (h : (ofTokens (tokensFrom [] cs)).toOption = some e) : parse (String.ofList cs) = .ok e := by
  rw [parse_eq_ok_iff, tokens, String.toList_ofList]
  cases hread : ofTokens (tokensFrom [] cs) with
  | error fault => simp [hread, Except.toOption] at h
  | ok found =>
    rw [hread] at h
    exact congrArg _ (Option.some.inj h)

/-- A chain with as many joints as the limit is read from its printed text; with one more it is read
only where it is written without parentheses. -/
theorem chainOf_reparsed :
    (parse (chainSource 64) = .ok (chainOf 64) ∧ parse (chainOf 64).render = .ok (chainOf 64)) ∧
      parse (chainSource 65) = .ok (chainOf 65) ∧
      parse (chainOf 65).render =
        .error (.malformed (chainOf 65).render (.selector .tooDeep)) := by
  have hread : parse (chainSource 64) = .ok (chainOf 64) := parse_ofList (by decide +kernel)
  have hlonger : parse (chainSource 65) = .ok (chainOf 65) := parse_ofList (by decide +kernel)
  have hfits : ∀ n ∈ (chainOf 64).depths, n ≤ 64 := by decide +kernel
  have hdeep : ¬ ∀ n ∈ (chainOf 65).depths, n ≤ 64 := by decide +kernel
  refine ⟨⟨hread, ?_⟩, hlonger, ?_⟩
  · rw [(parse_render_of_parse hread).1, if_pos hfits]
  · rw [(parse_render_of_parse hlonger).1, if_neg hdeep]

end StepScript.Selector
