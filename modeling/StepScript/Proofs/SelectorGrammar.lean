import Mathlib.Logic.Function.Iterate
import StepScript.Script.Selector

/-!
The grammar of tag expressions. A text splits into parentheses and maximal words in exactly one way,
and an expression is read from the tokens exactly when the grammar derives it from them. Depth is
counted from the outside: each negation and each parenthesis takes one step down, and no part of an
expression stands deeper than `nestingLimit`.
-/

set_option autoImplicit false
set_option relaxedAutoImplicit false

namespace StepScript.Selector

/-! ## Tokens -/

def IsWordChar (c : Char) : Prop := c ≠ '(' ∧ c ≠ ')' ∧ Text.isBlank c = false

instance (c : Char) : Decidable (IsWordChar c) :=
  inferInstanceAs (Decidable (c ≠ '(' ∧ c ≠ ')' ∧ Text.isBlank c = false))

/-- The tokens of some characters: the parentheses, and the words, which are as long as can be. -/
inductive Splits : List Char → List Token → Prop
  | nil : Splits [] []
  | opening {cs : List Char} {ts : List Token} : Splits cs ts → Splits ('(' :: cs) (.opening :: ts)
  | closing {cs : List Char} {ts : List Token} : Splits cs ts → Splits (')' :: cs) (.closing :: ts)
  | blank {c : Char} {cs : List Char} {ts : List Token} :
      Text.isBlank c = true → Splits cs ts → Splits (c :: cs) ts
  | word {w cs : List Char} {ts : List Token} :
      w ≠ [] → (∀ c ∈ w, IsWordChar c) → (∀ c ∈ cs.head?, ¬ IsWordChar c) → Splits cs ts →
      Splits (w ++ cs) (.word (String.ofList w) :: ts)

private theorem isBlank_parenthesis :
    Text.isBlank '(' = false ∧ Text.isBlank ')' = false := by decide

private theorem tokensFrom_word {word : List Char} (h : ∀ c ∈ word, IsWordChar c)
    (before cs : List Char) :
    tokensFrom before (word ++ cs) = tokensFrom (word.reverse ++ before) cs := by
  induction word generalizing before with
  | nil => rfl
  | cons c word ih =>
    obtain ⟨hopening, hclosing, hblank⟩ := h c List.mem_cons_self
    have hrest := ih (fun c hc => h c (List.mem_cons_of_mem _ hc)) (c :: before)
    simp [tokensFrom, hopening, hclosing, hblank, hrest]

private theorem tokensFrom_stop {cs : List Char} (h : ∀ c ∈ cs.head?, ¬ IsWordChar c)
    (word : List Char) : tokensFrom word cs = endWord word (tokensFrom [] cs) := by
  have hnil (ts : List Token) : endWord [] ts = ts := rfl
  cases cs with
  | nil => rfl
  | cons c cs =>
    have hc := h c rfl
    unfold tokensFrom
    by_cases hopening : c = '('
    · rw [if_pos hopening, if_pos hopening, hnil]
    by_cases hclosing : c = ')'
    · rw [if_neg hopening, if_pos hclosing, if_neg hopening, if_pos hclosing, hnil]
    have hblank : Text.isBlank c = true := by
      by_contra hword
      exact hc ⟨hopening, hclosing, eq_false_of_ne_true hword⟩
    simp only [hopening, hclosing, hblank, if_false, if_true, hnil]

private theorem splits_endWord {word cs : List Char} {ts : List Token}
    (hword : ∀ c ∈ word, IsWordChar c) (hstop : ∀ c ∈ cs.head?, ¬ IsWordChar c)
    (h : Splits cs ts) : Splits (word.reverse ++ cs) (endWord word ts) := by
  cases word with
  | nil => exact h
  | cons c word =>
    refine .word (by simp) (fun c' hc' => hword c' (List.mem_reverse.1 hc')) hstop h

private theorem splits_tokensFrom {word : List Char} (hword : ∀ c ∈ word, IsWordChar c)
    (cs : List Char) : Splits (word.reverse ++ cs) (tokensFrom word cs) := by
  induction cs generalizing word with
  | nil => exact splits_endWord hword nofun .nil
  | cons c cs ih =>
    have hnone : ∀ c ∈ ([] : List Char), IsWordChar c := nofun
    have hrest : Splits cs (tokensFrom [] cs) := ih hnone
    have hstop (h : ¬ IsWordChar c) : ∀ c' ∈ (c :: cs).head?, ¬ IsWordChar c' := by
      rintro _ ⟨⟩
      exact h
    unfold tokensFrom
    by_cases hopening : c = '('
    · subst hopening
      exact splits_endWord hword (hstop fun h => h.1 rfl) (.opening hrest)
    by_cases hclosing : c = ')'
    · subst hclosing
      exact splits_endWord hword (hstop fun h => h.2.1 rfl) (.closing hrest)
    rw [if_neg hopening, if_neg hclosing]
    by_cases hblank : Text.isBlank c = true
    · rw [if_pos hblank]
      have hc : ¬ IsWordChar c := fun h => Bool.false_ne_true (h.2.2.symm.trans hblank)
      exact splits_endWord hword (hstop hc) (.blank hblank hrest)
    · rw [if_neg hblank]
      have hc : IsWordChar c := ⟨hopening, hclosing, eq_false_of_ne_true hblank⟩
      have hlonger : ∀ c' ∈ c :: word, IsWordChar c' := List.forall_mem_cons.2 ⟨hc, hword⟩
      have hmore := ih hlonger
      rwa [List.reverse_cons, List.append_assoc] at hmore

private theorem tokensFrom_of_splits {cs : List Char} {ts : List Token} (h : Splits cs ts) :
    tokensFrom [] cs = ts := by
  induction h with
  | nil => rfl
  | opening _ ih => exact congrArg (Token.opening :: ·) ih
  | closing _ ih => exact congrArg (Token.closing :: ·) ih
  | @blank c cs ts hblank _ ih =>
    have hopening : c ≠ '(' := by
      rintro rfl
      exact absurd (isBlank_parenthesis.1.symm.trans hblank) (by decide)
    have hclosing : c ≠ ')' := by
      rintro rfl
      exact absurd (isBlank_parenthesis.2.symm.trans hblank) (by decide)
    simp [tokensFrom, hopening, hclosing, hblank, endWord, ih]
  | @word w cs ts hne hword hstop _ ih =>
    rw [tokensFrom_word hword, tokensFrom_stop hstop, ih]
    simp [endWord, hne]

/-- The tokens of a text are what it splits into. -/
theorem splits_iff {source : String} {ts : List Token} :
    Splits source.toList ts ↔ tokens source = ts := by
  refine ⟨tokensFrom_of_splits, ?_⟩
  rintro rfl
  have hnone : ∀ c ∈ ([] : List Char), IsWordChar c := nofun
  exact splits_tokensFrom hnone source.toList

/-! ## The grammar -/

inductive Level
  | disjunction
  | conjunction
  | negation
  | primary

/-- Tokens form a part of an expression that stands at some depth. -/
inductive Derives : Level → Nat → List Token → Selector → Prop
  | tag {d : Nat} {w : String} : w.toList.head? = some '@' → 1 < w.utf8ByteSize →
      Derives .primary d [.word w] (.tag w)
  | group {d : Nat} {ts : List Token} {e : Selector} : d + 1 ≤ nestingLimit →
      Derives .disjunction (d + 1) ts e → Derives .primary d (.opening :: (ts ++ [.closing])) e
  | negations {d : Nat} (k : Nat) {ts : List Token} {e : Selector} : d + k ≤ nestingLimit →
      Derives .primary (d + k) ts e →
      Derives .negation d (List.replicate k (.word "not") ++ ts) (Selector.not^[k] e)
  | conjunct {d : Nat} {ts : List Token} {e : Selector} :
      Derives .negation d ts e → Derives .conjunction d ts e
  | and {d : Nat} {ts ts' : List Token} {left right : Selector} :
      Derives .conjunction d ts left → Derives .negation d ts' right →
      Derives .conjunction d (ts ++ .word "and" :: ts') (.and left right)
  | disjunct {d : Nat} {ts : List Token} {e : Selector} :
      Derives .conjunction d ts e → Derives .disjunction d ts e
  | or {d : Nat} {ts ts' : List Token} {left right : Selector} :
      Derives .disjunction d ts left → Derives .conjunction d ts' right →
      Derives .disjunction d (ts ++ .word "or" :: ts') (.or left right)

namespace Derives

private theorem ne_nil {level : Level} {d : Nat} {ts : List Token} {e : Selector}
    (h : Derives level d ts e) : ts ≠ [] := by
  induction h with
  | tag _ _ => simp
  | group _ _ _ => simp
  | negations _ _ _ ih => simp [ih]
  | conjunct _ ih => exact ih
  | and _ _ _ _ => simp
  | disjunct _ ih => exact ih
  | or _ _ _ _ => simp

private theorem of_primary {d : Nat} {ts : List Token} {e : Selector} (hd : d ≤ nestingLimit)
    (h : Derives .primary d ts e) : Derives .negation d ts e := .negations 0 hd h

private theorem not {d : Nat} {ts : List Token} {e : Selector}
    (h : Derives .negation (d + 1) ts e) :
    Derives .negation d (.word "not" :: ts) (.not e) := by
  cases h with
  | @negations _ k ts e hdepth hprimary =>
    have hdeep : d + 1 + k = d + (k + 1) := by omega
    rw [hdeep] at hdepth hprimary
    rw [← Function.iterate_succ_apply' Selector.not]
    exact .negations (k + 1) hdepth hprimary

end Derives

/-! ## Operands joined by a keyword -/

/-- Operands with a keyword between them, joined to the left. -/
inductive Chained (keyword : String) (join : Selector → Selector → Selector)
    (Operand : List Token → Selector → Prop) : List Token → Selector → Prop
  | single {ts : List Token} {e : Selector} : Operand ts e → Chained keyword join Operand ts e
  | more {ts ts' : List Token} {left right : Selector} : Chained keyword join Operand ts left →
      Operand ts' right →
      Chained keyword join Operand (ts ++ .word keyword :: ts') (join left right)

private theorem derives_conjunction_iff {d : Nat} {ts : List Token} {e : Selector} :
    Derives .conjunction d ts e ↔ Chained "and" .and (Derives .negation d) ts e := by
  constructor
  · generalize hlevel : Level.conjunction = level
    intro h
    induction h with
    | conjunct h _ => exact .single h
    | and _ hright hleft _ => exact .more (hleft hlevel) hright
    | _ => cases hlevel
  · intro h
    induction h with
    | single h => exact .conjunct h
    | more _ hright hleft => exact .and hleft hright

private theorem derives_disjunction_iff {d : Nat} {ts : List Token} {e : Selector} :
    Derives .disjunction d ts e ↔ Chained "or" .or (Derives .conjunction d) ts e := by
  constructor
  · generalize hlevel : Level.disjunction = level
    intro h
    induction h with
    | disjunct h _ => exact .single h
    | or _ hright hleft _ => exact .more (hleft hlevel) hright
    | _ => cases hlevel
  · intro h
    induction h with
    | single h => exact .disjunct h
    | more _ hright hleft => exact .or hleft hright

/-- A function reads the phrases of a kind from the front of tokens, as long as none of some keywords
follows. -/
structure Reads (read : List Token → Reading) (Phrase : List Token → Selector → Prop)
    (keywords : List String) : Prop where
  sound : ∀ {tokens rest : List Token} {e : Selector}, read tokens = .ok (e, rest) →
    ∃ ts, tokens = ts ++ rest ∧ Phrase ts e
  complete : ∀ {ts : List Token} {e : Selector} {rest : List Token}, Phrase ts e →
    (∀ w ∈ keywords, rest.head? ≠ some (.word w)) → read (ts ++ rest) = .ok (e, rest)

section

variable {keyword : String} {join : Selector → Selector → Selector}
  {operand : List Token → Reading} {Operand : List Token → Selector → Prop}
  {keywords : List String}

theorem chainFrom_keyword {fuel : Nat} {left right : Selector} {tokens rest : List Token}
    (h : operand tokens = .ok (right, rest)) :
    chainFrom keyword join operand (fuel + 1) left (.word keyword :: tokens) =
      chainFrom keyword join operand fuel (join left right) rest := by
  simp [chainFrom, h]

theorem chainFrom_stop {fuel : Nat} {left : Selector} {tokens : List Token}
    (h : tokens.head? ≠ some (.word keyword)) :
    chainFrom keyword join operand fuel left tokens = .ok (left, tokens) := by
  cases fuel with
  | zero => rfl
  | succ fuel =>
    unfold chainFrom
    split
    · next w rest =>
      have hw : ¬ w = keyword := by
        rintro rfl
        exact h rfl
      rw [if_neg hw]
    · rfl

private theorem chained_of_chainFrom (h : Reads operand Operand keywords) {fuel : Nat}
    {left e : Selector} {before tokens rest : List Token}
    (hleft : Chained keyword join Operand before left)
    (hchain : chainFrom keyword join operand fuel left tokens = .ok (e, rest)) :
    ∃ ts, tokens = ts ++ rest ∧ Chained keyword join Operand (before ++ ts) e := by
  induction fuel generalizing left before tokens with
  | zero =>
    cases hchain
    exact ⟨[], rfl, by rwa [List.append_nil]⟩
  | succ fuel ih =>
    by_cases hword : tokens.head? = some (.word keyword)
    · obtain ⟨tokens, rfl⟩ : ∃ more, tokens = .word keyword :: more := by
        cases tokens with
        | nil => cases hword
        | cons token more => exact ⟨more, by cases hword; rfl⟩
      cases hread : operand tokens with
      | error fault => simp [chainFrom, hread] at hchain
      | ok found =>
        obtain ⟨right, after⟩ := found
        rw [chainFrom_keyword hread] at hchain
        obtain ⟨ts', rfl, hright⟩ := h.sound hread
        obtain ⟨ts, rfl, hmore⟩ := ih (hleft.more hright) hchain
        refine ⟨.word keyword :: (ts' ++ ts), by simp, ?_⟩
        simpa using hmore
    · rw [chainFrom_stop hword] at hchain
      cases hchain
      exact ⟨[], rfl, by rwa [List.append_nil]⟩

private theorem chain_of_chained (h : Reads operand Operand keywords) (hother : keyword ∉ keywords)
    {ts : List Token} {e : Selector} (hchained : Chained keyword join Operand ts e) :
    ∀ rest : List Token, (∀ w ∈ keywords, rest.head? ≠ some (.word w)) →
      ∃ fuel, rest.length ≤ fuel ∧ chain keyword join operand (ts ++ rest) =
        chainFrom keyword join operand fuel e rest := by
  induction hchained with
  | single hoperand =>
    intro rest hrest
    exact ⟨rest.length, Nat.le_refl _, by simp [chain, h.complete hoperand hrest]⟩
  | @more ts ts' left right _ hright ih =>
    intro rest hrest
    have hkeyword : ∀ w ∈ keywords,
        (Token.word keyword :: (ts' ++ rest)).head? ≠ some (.word w) := by
      rintro w hw ⟨⟩
      exact hother hw
    obtain ⟨fuel, hfuel, hchain⟩ := ih _ hkeyword
    obtain ⟨fuel, rfl⟩ : ∃ n, fuel = n + 1 := ⟨fuel - 1, by simp at hfuel; omega⟩
    refine ⟨fuel, by simp at hfuel; omega, ?_⟩
    rw [chainFrom_keyword (h.complete hright hrest)] at hchain
    simpa using hchain

private theorem Reads.chain (h : Reads operand Operand keywords) (hother : keyword ∉ keywords) :
    Reads (chain keyword join operand) (Chained keyword join Operand) (keyword :: keywords) where
  sound := by
    intro tokens rest e hread
    unfold Selector.chain at hread
    cases hfirst : operand tokens with
    | error fault => simp [hfirst] at hread
    | ok found =>
      obtain ⟨left, after⟩ := found
      rw [hfirst] at hread
      obtain ⟨ts, rfl, hleft⟩ := h.sound hfirst
      obtain ⟨ts', rfl, hall⟩ := chained_of_chainFrom h (.single hleft) hread
      exact ⟨ts ++ ts', (List.append_assoc _ _ _).symm, hall⟩
  complete := by
    intro ts e rest hchained hrest
    have hothers : ∀ w ∈ keywords, rest.head? ≠ some (.word w) :=
      fun w hw => hrest w (List.mem_cons_of_mem _ hw)
    obtain ⟨fuel, -, hchain⟩ := chain_of_chained h hother hchained rest hothers
    rw [hchain]
    exact chainFrom_stop (hrest keyword List.mem_cons_self)

end

/-! ## Reading -/

theorem isTag_iff {w : String} :
    isTag w = true ↔ w.toList.head? = some '@' ∧ 1 < w.utf8ByteSize := by
  unfold isTag
  cases hw : w.toList with
  | nil => simp
  | cons c cs =>
    by_cases hc : c = '@'
    · subst hc
      have hsplit : w = "@" ++ String.ofList cs := by
        rw [← String.toList_inj, hw]
        simp
      have hone : "@".utf8ByteSize = 1 := rfl
      have hsize : 1 < w.utf8ByteSize ↔ (String.ofList cs).utf8ByteSize ≠ 0 := by
        rw [hsplit, String.utf8ByteSize_append, hone]
        omega
      rw [hsize, ne_eq, String.utf8ByteSize_eq_zero_iff]
      cases cs <;> simp
    · simp [hc]

theorem ne_not_of_isTag {w : String} (h : isTag w = true) : w ≠ "not" := by
  rintro rfl
  exact absurd h (by decide)

private theorem reads_joined {d : Nat} {operand : List Token → Reading}
    (h : Reads operand (Derives .negation d) []) :
    Reads (joined operand) (Derives .disjunction d) ["or", "and"] := by
  have hand : Reads (chain "and" .and operand) (Derives .conjunction d) ["and"] := by
    have hchain : Reads (chain "and" .and operand) (Chained "and" .and (Derives .negation d))
        ["and"] := h.chain List.not_mem_nil
    exact ⟨fun hread => by simpa only [derives_conjunction_iff] using hchain.sound hread,
      fun hphrase => hchain.complete (derives_conjunction_iff.1 hphrase)⟩
  have hor : Reads (joined operand) (Chained "or" .or (Derives .conjunction d)) ["or", "and"] :=
    hand.chain (by decide)
  exact ⟨fun hread => by simpa only [derives_disjunction_iff] using hor.sound hread,
    fun hphrase => hor.complete (derives_disjunction_iff.1 hphrase)⟩

section

variable {room d : Nat}

private theorem sound_operand
    (hinner : ∀ less, room = less + 1 → Reads (operand less) (Derives .negation (d + 1)) [])
    (hroom : room + d = nestingLimit) {tokens rest : List Token} {e : Selector}
    (h : operand room tokens = .ok (e, rest)) :
    ∃ ts, tokens = ts ++ rest ∧ Derives .negation d ts e := by
  cases tokens with
  | nil => simp [operand] at h
  | cons token tokens =>
    cases token with
    | closing => simp [operand] at h
    | word w =>
      by_cases hnot : w = "not"
      · subst hnot
        cases room with
        | zero => simp [operand] at h
        | succ less =>
          cases hread : operand less tokens with
          | error fault => simp [operand, hread] at h
          | ok found =>
            obtain ⟨inner, after⟩ := found
            simp only [operand, if_true, hread] at h
            cases h
            obtain ⟨ts, rfl, hts⟩ := (hinner less rfl).sound hread
            exact ⟨.word "not" :: ts, rfl, hts.not⟩
      · rw [operand.eq_def] at h
        simp only [hnot, if_false] at h
        split at h
        · next htag =>
          cases h
          obtain ⟨hhead, hlong⟩ := isTag_iff.1 htag
          exact ⟨[.word w], rfl, .of_primary (by omega) (.tag hhead hlong)⟩
        · cases h
    | opening =>
      cases room with
      | zero => simp [operand] at h
      | succ less =>
        have hgroup := reads_joined (hinner less rfl)
        cases hread : joined (operand less) tokens with
        | error fault => simp [operand, hread] at h
        | ok found =>
          obtain ⟨inner, after⟩ := found
          obtain ⟨ts, rfl, hts⟩ := hgroup.sound hread
          simp only [operand, hread] at h
          split at h
          · next hpair =>
            cases hpair
            cases h
            exact ⟨.opening :: (ts ++ [.closing]), by simp,
              .of_primary (by omega) (.group (by omega) hts)⟩
          · cases h
          · cases h

private theorem complete_operand
    (hinner : ∀ less, room = less + 1 → Reads (operand less) (Derives .negation (d + 1)) [])
    (hroom : room + d = nestingLimit) {ts : List Token} {e : Selector}
    (h : Derives .negation d ts e) (rest : List Token) :
    operand room (ts ++ rest) = .ok (e, rest) := by
  cases h with
  | @negations _ k ts e hdepth hprimary =>
    cases k with
    | succ k =>
      obtain ⟨less, rfl⟩ : ∃ less, room = less + 1 := ⟨room - 1, by omega⟩
      have hdeep : d + (k + 1) = d + 1 + k := by omega
      rw [hdeep] at hdepth hprimary
      have hread : operand less (List.replicate k (.word "not") ++ ts ++ rest) =
          .ok (Selector.not^[k] e, rest) :=
        (hinner less rfl).complete (.negations k hdepth hprimary) nofun
      rw [List.replicate_succ, Function.iterate_succ_apply', List.cons_append, List.cons_append,
        operand, hread]
      rfl
    | zero =>
      cases hprimary with
      | @tag _ w hhead hlong =>
        have htag := isTag_iff.2 ⟨hhead, hlong⟩
        rw [operand.eq_def]
        simp [ne_not_of_isTag htag, htag]
      | @group _ ts _ hdeep hts =>
        obtain ⟨less, rfl⟩ : ∃ less, room = less + 1 := ⟨room - 1, by omega⟩
        have hread : joined (operand less) (ts ++ .closing :: rest) = .ok (e, .closing :: rest) :=
          (reads_joined (hinner less rfl)).complete hts (by simp)
        simp [operand, hread]

end

private theorem reads_operand (room : Nat) {d : Nat} (hroom : room + d = nestingLimit) :
    Reads (operand room) (Derives .negation d) [] := by
  induction room generalizing d with
  | zero =>
    have hinner (less : Nat) (h : 0 = less + 1) :
        Reads (operand less) (Derives .negation (d + 1)) [] := nomatch h
    exact ⟨sound_operand hinner hroom, fun hphrase _ => complete_operand hinner hroom hphrase _⟩
  | succ room ih =>
    have hinner (less : Nat) (h : room + 1 = less + 1) :
        Reads (operand less) (Derives .negation (d + 1)) [] := by
      obtain rfl : room = less := by omega
      exact ih (by omega)
    exact ⟨sound_operand hinner hroom, fun hphrase _ => complete_operand hinner hroom hphrase _⟩

theorem ofTokens_eq_ok_iff {ts : List Token} {e : Selector} :
    ofTokens ts = .ok e ↔ ts = [] ∧ e = .any ∨ Derives .disjunction 0 ts e := by
  have hreads := reads_joined (reads_operand nestingLimit (Nat.add_zero _))
  by_cases hts : ts = []
  · subst hts
    have hnone : ¬ Derives .disjunction 0 [] e := fun h => h.ne_nil rfl
    simp [ofTokens, hnone, eq_comm]
  have hsome : ts.isEmpty = false := by simpa using hts
  unfold ofTokens
  rw [hsome]
  constructor
  · intro h
    right
    cases hread : joined (operand nestingLimit) ts with
    | error fault => simp [hread] at h
    | ok found =>
      obtain ⟨e', after⟩ := found
      cases after with
      | cons token after => simp [hread] at h
      | nil =>
        obtain ⟨ts', rfl, hts'⟩ := hreads.sound hread
        simp only [hread, if_false, Bool.false_eq_true] at h
        cases h
        rwa [List.append_nil]
  · rintro (⟨hnil, -⟩ | h)
    · exact absurd hnil hts
    · have hread : joined (operand nestingLimit) (ts ++ []) = .ok (e, []) :=
        hreads.complete h (by simp)
      rw [List.append_nil] at hread
      simp [hread]

theorem parse_eq_ok_iff {source : String} {e : Selector} :
    parse source = .ok e ↔ ofTokens (tokens source) = .ok e := by
  unfold parse
  cases ofTokens (tokens source) with
  | error fault => exact ⟨nofun, nofun⟩
  | ok found =>
    constructor
    · rintro ⟨⟩
      rfl
    · rintro ⟨⟩
      rfl

/-- The expression that a text stands for; a blank text stands for any tags. -/
def IsSaidBy (e : Selector) (source : String) : Prop :=
  ∃ ts, Splits source.toList ts ∧ (ts = [] ∧ e = .any ∨ Derives .disjunction 0 ts e)

theorem parse_eq_ok_iff_isSaidBy {source : String} {e : Selector} :
    parse source = .ok e ↔ e.IsSaidBy source := by
  rw [parse_eq_ok_iff, ofTokens_eq_ok_iff]
  constructor
  · intro h
    exact ⟨tokens source, splits_iff.2 rfl, h⟩
  · rintro ⟨ts, hsplits, h⟩
    rwa [splits_iff.1 hsplits]

/-- A text is read as the expression that the grammar derives from its tokens. No tokens stand for
two expressions, and a text from which none is derived is refused as a whole. -/
theorem parse_accepts_grammar (source : String) :
    (∃ ts, Splits source.toList ts ∧ (∀ ts', Splits source.toList ts' → ts' = ts) ∧
      ∀ e, parse source = .ok e ↔ ts = [] ∧ e = .any ∨ Derives .disjunction 0 ts e) ∧
    (∀ ts e e', Derives .disjunction 0 ts e → Derives .disjunction 0 ts e' → e = e') ∧
    ((∃ e, parse source = .ok e) ∨
      ∃ fault, parse source = .error (.malformed source (.selector fault))) := by
  refine ⟨⟨tokens source, splits_iff.2 rfl, fun ts' h => (splits_iff.1 h).symm, fun e => ?_⟩,
    fun ts e e' h h' => ?_, ?_⟩
  · rw [parse_eq_ok_iff, ofTokens_eq_ok_iff]
  · have hread := (ofTokens_eq_ok_iff.2 (.inr h)).symm.trans (ofTokens_eq_ok_iff.2 (.inr h'))
    exact Except.ok.inj hread
  · rw [parse]
    cases ofTokens (tokens source) with
    | error fault => exact .inr ⟨fault, rfl⟩
    | ok e => exact .inl ⟨e, rfl⟩

end StepScript.Selector
