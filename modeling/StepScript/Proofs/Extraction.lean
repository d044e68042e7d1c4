import Mathlib.Data.List.Forall2
import StepScript.Proofs.JsonRecord
import StepScript.Proofs.Trimming

/-!
The object in a reply. What stands before the first opening brace and behind the last closing one
does not count: there is one way to split a text there, and what a reply is read as, or that it is
unreadable, is decided by the text between them alone.
-/

set_option autoImplicit false
set_option relaxedAutoImplicit false

namespace StepScript

private theorem Dict.ofList_of_perm {α : Type} {entries : List (String × α)} {d : Dict α}
    (h : entries.Perm d.entries) : Dict.ofList entries = d := by
  refine Dict.ext_find? fun key => ?_
  have hsome (v : α) (hfind : (Dict.ofList entries).find? key = some v) : d.find? key = some v :=
    Dict.find?_eq_some_iff.2 (h.mem_iff.1 (Dict.mem_of_mem_ofList (Dict.find?_eq_some_iff.1 hfind)))
  cases hfind : (Dict.ofList entries).find? key with
  | some v => exact (hsome v hfind).symm
  | none =>
    have hkey := Dict.find?_ofList_eq_none_iff.1 hfind
    cases hd : d.find? key with
    | none => rfl
    | some v =>
      have hmem := h.mem_iff.2 (Dict.find?_eq_some_iff.1 hd)
      exact absurd (List.mem_map_of_mem (f := Prod.fst) hmem) hkey

namespace Json

/-! ## The first and the last brace -/

private theorem brace_of_bne {c brace : Char} (h : (c != brace) = false) : c = brace := by
  simpa using h

private theorem dropWhile_before {before cs : List Char} (hbefore : '\x7b' ∉ before)
    (hfirst : cs.head? = some '\x7b') : (before ++ cs).dropWhile (· != '\x7b') = cs := by
  refine Text.dropWhile_append_of_head? (fun c hc => ?_) fun c hc => ?_
  · rw [bne_iff_ne]
    exact fun h => hbefore (h ▸ hc)
  · rw [hfirst] at hc
    cases hc
    rfl

private theorem objectChars?_surrounded {before found after : List Char} (hbefore : '\x7b' ∉ before)
    (hafter : '\x7d' ∉ after) (hfirst : found.head? = some '\x7b')
    (hlast : found.getLast? = some '\x7d') :
    objectChars? (before ++ found ++ after) = some found := by
  have hne : found ≠ [] := by
    rintro rfl
    cases hfirst
  have hstart : (found ++ after).head? = some '\x7b' := by
    rw [List.head?_append_of_ne_nil found hne, hfirst]
  have hend : (found ++ after).rdropWhile (· != '\x7d') = found := by
    refine Text.rdropWhile_append_of_getLast? (fun c hc => ?_) fun c hc => ?_
    · rw [bne_iff_ne]
      exact fun h => hafter (h ▸ hc)
    · rw [hlast] at hc
      cases hc
      rfl
  rw [List.rdropWhile] at hend
  rw [objectChars?, List.append_assoc, dropWhile_before hbefore hstart, hend]
  split
  · contradiction
  · rfl

private theorem exists_of_objectChars? {cs found : List Char} (h : objectChars? cs = some found) :
    ∃ before after, cs = before ++ found ++ after ∧ '\x7b' ∉ before ∧ '\x7d' ∉ after ∧
      found.head? = some '\x7b' ∧ found.getLast? = some '\x7d' := by
  have hfound : (cs.dropWhile (· != '\x7b')).rdropWhile (· != '\x7d') = found ∧ found ≠ [] := by
    rw [objectChars?] at h
    split at h
    · cases h
    · next hne =>
      cases h
      exact ⟨rfl, hne⟩
  obtain ⟨rfl, hne⟩ := hfound
  refine ⟨cs.takeWhile (· != '\x7b'), (cs.dropWhile (· != '\x7b')).rtakeWhile (· != '\x7d'),
    ?_, fun hmem => ?_, fun hmem => ?_, ?_, ?_⟩
  · rw [List.append_assoc, List.rdropWhile_append_rtakeWhile, List.takeWhile_append_dropWhile]
  · simpa using List.mem_takeWhile_imp hmem
  · simpa using List.mem_rtakeWhile_imp hmem
  · obtain ⟨rest, hrest⟩ := List.rdropWhile_prefix (· != '\x7d') (cs.dropWhile (· != '\x7b'))
    obtain ⟨c, hc⟩ := Option.isSome_iff_exists.1 (List.isSome_head?.2 hne)
    have hnot := List.head?_dropWhile_not (· != '\x7b') cs
    rw [← hrest, List.head?_append_of_ne_nil _ hne, hc] at hnot
    rw [hc, brace_of_bne hnot]
  · have hnot := List.rdropWhile_last_not (· != '\x7d') _ hne
    rw [List.getLast?_eq_getLast_of_ne_nil hne, brace_of_bne (eq_false_of_ne_true hnot)]

private theorem two_le_length {found : List Char} (hfirst : found.head? = some '\x7b')
    (hlast : found.getLast? = some '\x7d') : 2 ≤ found.length := by
  match found with
  | [] => cases hfirst
  | [c] =>
    cases hfirst
    cases hlast
  | c :: d :: rest =>
    simp only [List.length_cons]
    omega

/-- A text split before its first opening brace and behind its last closing one. -/
structure Splits (text before raw after : String) : Prop where
  eq : text = before ++ raw ++ after
  before : '\x7b' ∉ before.toList
  after : '\x7d' ∉ after.toList
  first : raw.toList.head? = some '\x7b'
  last : raw.toList.getLast? = some '\x7d'
  length : 2 ≤ raw.length

variable {text before raw after : String}

private theorem Splits.objectText? (h : Splits text before raw after) :
    objectText? text = some raw := by
  rw [Json.objectText?, h.eq, String.toList_append, String.toList_append,
    objectChars?_surrounded h.before h.after h.first h.last, Option.map_some, String.ofList_toList]

theorem objectText?_eq_some_iff : objectText? text = some raw ↔
    ∃ before after, Splits text before raw after := by
  constructor
  · intro h
    obtain ⟨found, hfound, rfl⟩ := Option.map_eq_some_iff.1 h
    obtain ⟨before, after, heq, hbefore, hafter, hfirst, hlast⟩ := exists_of_objectChars? hfound
    refine ⟨String.ofList before, String.ofList after, ?_, ?_, ?_, ?_, ?_, ?_⟩
    · rw [← String.toList_inj]
      simpa using heq
    · simpa using hbefore
    · simpa using hafter
    · simpa using hfirst
    · simpa using hlast
    · rw [String.length_ofList]
      exact two_le_length hfirst hlast
  · rintro ⟨before, after, h⟩
    exact h.objectText?

private theorem Splits.unique {before' raw' after' : String} (h : Splits text before raw after)
    (h' : Splits text before' raw' after') : before' = before ∧ raw' = raw ∧ after' = after := by
  have hraw : raw' = raw := Option.some.inj (h'.objectText?.symm.trans h.objectText?)
  subst hraw
  have hrest {before after : String} (h : Splits text before raw' after) :
      text.toList.dropWhile (· != '\x7b') = raw'.toList ++ after.toList := by
    have hfirst : (raw'.toList ++ after.toList).head? = some '\x7b' :=
      List.mem_head?_append_of_mem_head? h.first
    rw [h.eq, String.toList_append, String.toList_append, List.append_assoc,
      dropWhile_before h.before hfirst]
  have hafter : after' = after :=
    String.toList_inj.1 (List.append_cancel_left ((hrest h').symm.trans (hrest h)))
  subst hafter
  have hbefore := h'.eq.symm.trans h.eq
  rw [← String.toList_inj] at hbefore
  refine ⟨String.toList_inj.1 ?_, rfl, rfl⟩
  simpa using hbefore

/-! ## The value of an object -/

private theorem skipGap_brace (cs : Text.Signs) :
    Document.skipGap (some '\x7b' :: cs) = some '\x7b' :: cs := rfl

private theorem object_of_value? {fuel : Nat} {cs rest : Text.Signs} {v : Document}
    (h : Document.value? fuel (some '\x7b' :: cs) = some (v, rest)) :
    ∃ members, v = .object members := by
  cases fuel with
  | zero => cases h
  | succ fuel =>
    simp only [Document.value?, skipGap_brace] at h
    split at h
    · cases h
      exact ⟨[], rfl⟩
    · obtain ⟨found, -, heq⟩ := Option.map_eq_some_iff.1 h
      cases heq
      exact ⟨found.1, rfl⟩

private theorem object_of_read? {v : Json} (hfirst : raw.toList.head? = some '\x7b')
    (h : Json.read? raw = some v) : ∃ members, v = .object members := by
  obtain ⟨document, hdocument, hread⟩ := Option.bind_eq_some_iff.1 h
  obtain ⟨cs, hcs⟩ : ∃ cs, raw.toList = '\x7b' :: cs := List.head?_eq_some_iff.1 hfirst
  rw [Document.ofText?, Document.ofSigns?, Text.signsOfText, hcs, List.map_cons] at hdocument
  split at hdocument
  · next found rest hvalue =>
    obtain ⟨members, rfl⟩ := object_of_value? hvalue
    split at hdocument
    · cases hdocument
      simp only [depthLimit, Document.readAs?, Option.map_eq_some_iff] at hread
      obtain ⟨found, -, rfl⟩ := hread
      exact ⟨_, rfl⟩
    · cases hdocument
  · cases hdocument

/-! ## What a reply is read as -/

/-- The answer to a reply is a value, or that the reply is unreadable when there is none. -/
def Answers {α : Type} (text : String) (a? : Option α) (r : Except ChatError α) : Prop :=
  match a? with
  | some a => r = .ok a
  | none => ∃ said, r = .error (.unreadableReply (said ++ " in: " ++ text))

theorem Answers.eq_ok_iff {α : Type} {a? : Option α} {r : Except ChatError α}
    (h : Answers text a? r) (a : α) : r = .ok a ↔ a? = some a := by
  cases a? with
  | none =>
    obtain ⟨said, rfl⟩ := h
    exact ⟨nofun, nofun⟩
  | some found =>
    rw [show r = .ok found from h]
    simp

private theorem Answers.bind {α β : Type} {a? : Option α} {r : Except ChatError α}
    (h : Answers text a? r) {f : α → Option β} {r' : Except ChatError β}
    (herror : ∀ e, r = .error e → r' = .error e) (hok : ∀ a, r = .ok a → Answers text (f a) r') :
    Answers text (a?.bind f) r' := by
  cases a? with
  | none =>
    obtain ⟨said, hsaid⟩ := h
    exact ⟨said, herror _ hsaid⟩
  | some a => exact hok a h

private theorem answers_objectIn (text : String) :
    Answers text ((objectText? text).bind Json.read?) (objectIn text) := by
  unfold objectIn
  cases objectText? text with
  | none => exact ⟨"No JSON string found", rfl⟩
  | some raw =>
    rw [Option.bind_some]
    cases hread : Json.read? raw with
    | none => exact ⟨malformedText, by simp [hread, unreadable]⟩
    | some v => simp [Answers, hread]

private theorem object_of_objectIn {v : Json} (h : objectIn text = .ok v) :
    ∃ members, v = .object members := by
  obtain ⟨raw, hraw, hread⟩ :=
    Option.bind_eq_some_iff.1 (((answers_objectIn text).eq_ok_iff v).1 h)
  obtain ⟨before, after, hsplits⟩ := objectText?_eq_some_iff.1 hraw
  exact object_of_read? hsplits.first hread

theorem answers_recordIn {α : Type} [Codec α] (text : String) :
    Answers text (((objectText? text).bind Json.read?).bind (Codec.decode? (α := α)))
      (recordIn text) := by
  refine (answers_objectIn text).bind (fun e h => ?_) fun v h => ?_
  · rw [recordIn, h]
  · rw [recordIn, h]
    cases hdecode : Codec.decode? (α := α) v with
    | none => exact ⟨malformedText, by simp [hdecode, unreadable]⟩
    | some a => simp [Answers, hdecode]

end Json

open Json

namespace Match

/-- What an object in a reply says: a match, or that nothing fits when it has no members. -/
def ofObject? : Json → Option (Option Match)
  | .object [] => some none
  | v => (ofJson? v).map some

private theorem answers_ofReply (text : String) :
    Answers text (((objectText? text).bind Json.read?).bind ofObject?) (ofReply text) := by
  refine (answers_objectIn text).bind (fun e h => ?_) fun v h => ?_
  · rw [ofReply, h]
  · rw [ofReply, h]
    unfold ofObject?
    split
    · rfl
    · next hne =>
      cases hmatch : ofJson? v with
      | none => exact ⟨malformedText, by simp [hmatch, unreadable]⟩
      | some found => simp [Answers, hmatch]

/-! ## Matches in replies -/

def textMembers (args : List (String × String)) : List (String × Json) :=
  args.map fun arg => (arg.1, .string arg.2)

/-- An object that a match is written as, with the members of it and of its captures in any
order. -/
inductive IsForm (found : Match) : Json → Prop
  | patternFirst (args : List (String × String)) (h : args.Perm found.captures.entries) :
    IsForm found (.object [("text", .string found.pattern), ("args", .object (textMembers args))])
  | capturesFirst (args : List (String × String)) (h : args.Perm found.captures.entries) :
    IsForm found (.object [("args", .object (textMembers args)), ("text", .string found.pattern)])

private theorem toJson_eq (found : Match) : found.toJson = .object
    [("args", .object (textMembers found.captures.entries)), ("text", .string found.pattern)] := by
  have horder : "args" < "text" := by decide
  simp [toJson, ofMembers, ofDict, ofTexts, Dict.ofList, Dict.insertAll, Dict.insert, Dict.put,
    Dict.empty, horder, Dict.mapValues, textMembers]

private theorem isForm_toJson (found : Match) : found.IsForm found.toJson := by
  rw [toJson_eq]
  exact .capturesFirst _ (.refl _)

variable {found : Match}

private theorem legible_textMembers (args : List (String × String)) :
    Legible (.object (textMembers args)) := by
  refine legible_object fun m hm => ?_
  obtain ⟨arg, -, rfl⟩ := List.mem_map.1 hm
  exact legible_string arg.2

private theorem IsForm.legible {v : Json} (h : found.IsForm v) : Legible v := by
  cases h with
  | patternFirst args _ =>
    exact legible_object (by simpa using ⟨legible_string _, legible_textMembers args⟩)
  | capturesFirst args _ =>
    exact legible_object (by simpa using ⟨legible_textMembers args, legible_string _⟩)

private theorem readMembers?_any {room : Nat} {members read : List (String × Json)}
    (h : List.Forall₂ (fun m n => n.1 = m.1 ∧
      Document.readAs? room .any (.ofValue m.2) = some n.2) members read) :
    Document.readMembers? room .any (Document.ofMembers members) = some read := by
  induction h with
  | nil => rfl
  | cons hm _ ih =>
    obtain ⟨hname, hvalue⟩ := hm
    simp [Document.ofMembers, Document.readMembers?, hvalue, ih, ← hname]

private theorem readAs?_object {room : Nat} {members read : List (String × Json)}
    (h : List.Forall₂ (fun m n => n.1 = m.1 ∧
      Document.readAs? room .any (.ofValue m.2) = some n.2) members read) :
    Document.readAs? (room + 1) .any (.ofValue (.object members)) = some (ofMembers read) := by
  rw [Document.ofValue, Document.readAs?, readMembers?_any h]
  rfl

private theorem readAs?_string (room : Nat) (s : String) :
    Document.readAs? room .any (.ofValue (.string s)) = some (.string s) := by
  rw [Document.ofValue, Document.readAs?, Option.map_some]

private theorem readAs?_textMembers (room : Nat) {args : List (String × String)}
    (h : args.Perm found.captures.entries) :
    Document.readAs? (room + 1) .any (.ofValue (.object (textMembers args))) =
      some (ofTexts found.captures) := by
  have hperm : (textMembers args).Perm (found.captures.mapValues Json.string).entries := h.map _
  have hread : List.Forall₂ (fun m n => n.1 = m.1 ∧
      Document.readAs? room .any (.ofValue m.2) = some n.2) (textMembers args)
        (textMembers args) := by
    refine List.forall₂_same.2 fun m hm => ⟨rfl, ?_⟩
    obtain ⟨arg, -, rfl⟩ := List.mem_map.1 hm
    exact readAs?_string room arg.2
  rw [readAs?_object hread, ofMembers, Dict.ofList_of_perm hperm]
  rfl

private theorem IsForm.read?_chars {v : Json} (h : found.IsForm v) (style : Style) :
    Json.read? (String.ofList (chars style v)) = some found.toJson := by
  rw [Json.read?, readAs?, ofText?_chars h.legible, Option.bind_some]
  cases h with
  | patternFirst args hargs =>
    exact readAs?_object (.cons ⟨rfl, readAs?_string _ _⟩
      (.cons ⟨rfl, readAs?_textMembers _ hargs⟩ .nil))
  | capturesFirst args hargs =>
    have hread : Document.readAs? depthLimit .any (.ofValue (.object
        [("args", .object (textMembers args)), ("text", .string found.pattern)])) =
          some (ofMembers [("args", ofTexts found.captures), ("text", .string found.pattern)]) :=
      readAs?_object (.cons ⟨rfl, readAs?_textMembers _ hargs⟩
        (.cons ⟨rfl, readAs?_string _ _⟩ .nil))
    have hform : ofMembers [("args", ofTexts found.captures), ("text", .string found.pattern)] =
        found.toJson := by
      have horder : "args" < "text" := by decide
      rw [toJson_eq]
      exact congrArg Json.object (Dict.entries_ofList (List.pairwise_pair.2 horder))
    rw [hread, hform]

private theorem exists_chars_object (style : Style) (members : List (String × Json)) :
    ∃ inside, chars style (.object members) = '\x7b' :: (inside ++ ['\x7d']) := by
  cases members with
  | nil => exact ⟨[], by simp [chars]⟩
  | cons m members =>
    exact ⟨style.inner.lineBreak ++ memberChars style.inner m ++
      membersChars style.inner members ++ style.lineBreak, by simp [chars]⟩

private theorem IsForm.splits {v : Json} (h : found.IsForm v) (style : Style)
    {before after : String} (hbefore : '\x7b' ∉ before.toList) (hafter : '\x7d' ∉ after.toList) :
    Splits (before ++ String.ofList (chars style v) ++ after) before
      (String.ofList (chars style v)) after := by
  obtain ⟨inside, hinside⟩ : ∃ inside, chars style v = '\x7b' :: (inside ++ ['\x7d']) := by
    cases h with
    | patternFirst args _ => exact exists_chars_object style _
    | capturesFirst args _ => exact exists_chars_object style _
  have hlast : (chars style v).getLast? = some '\x7d' := by
    rw [hinside, ← List.cons_append, List.getLast?_concat]
  have hfirst : (chars style v).head? = some '\x7b' := by rw [hinside, List.head?_cons]
  refine ⟨rfl, hbefore, hafter, ?_, ?_, ?_⟩
  · rwa [String.toList_ofList]
  · rwa [String.toList_ofList]
  · rw [String.length_ofList]
    exact two_le_length hfirst hlast

private theorem ofReply_of_isForm {v : Json} (h : found.IsForm v) (style : Style)
    {before after : String} (hbefore : '\x7b' ∉ before.toList) (hafter : '\x7d' ∉ after.toList) :
    ofReply (before ++ String.ofList (chars style v) ++ after) = .ok (some found) := by
  have hanswer := answers_ofReply (before ++ String.ofList (chars style v) ++ after)
  have hmatch : ofObject? found.toJson = some (some found) := by
    rw [toJson_eq, ofObject?, ← toJson_eq, ofJson?_toJson, Option.map_some]
    exact nofun
  rwa [(h.splits style hbefore hafter).objectText?, Option.bind_some, h.read?_chars,
    Option.bind_some, hmatch] at hanswer

private theorem ofReply_eq_none_iff {text : String} : ofReply text = .ok none ↔
    ∃ raw, objectText? text = some raw ∧ Json.read? raw = some (.object []) := by
  have hempty (v : Json) : ofObject? v = some none ↔ v = .object [] := by
    unfold ofObject?
    split
    · simp
    · next hne => simpa using hne
  rw [(answers_ofReply text).eq_ok_iff, Option.bind_assoc, Option.bind_eq_some_iff]
  simp only [Option.bind_eq_some_iff, hempty, exists_eq_right]

end Match

/-- A reply is split in one way at its first and its last brace; what it is read as, or that it is
unreadable, is decided by the text between them. Around the text of a match anything without an
opening brace may stand before it, and anything without a closing brace behind it; and nothing fits
just when the object has no members. -/
theorem reply_read_by_object (text : String) :
    (∀ raw, objectText? text = some raw ↔ ∃ before after, Splits text before raw after) ∧
      (∀ before raw after before' raw' after', Splits text before raw after →
        Splits text before' raw' after' → before' = before ∧ raw' = raw ∧ after' = after) ∧
      (∀ v, objectIn text = .ok v → ∃ members, v = .object members) ∧
      Answers text ((objectText? text).bind Json.read?) (objectIn text) ∧
      (∀ {α : Type} [Codec α], Answers text
        (((objectText? text).bind Json.read?).bind (Codec.decode? (α := α))) (recordIn text)) ∧
      Answers text (((objectText? text).bind Json.read?).bind Match.ofObject?)
        (Match.ofReply text) ∧
      (∀ found : Match, found.IsForm (Codec.encode found) ∧
        ∀ v style before after, found.IsForm v → '\x7b' ∉ before.toList → '\x7d' ∉ after.toList →
          text = before ++ String.ofList (chars style v) ++ after →
          Match.ofReply text = .ok (some found)) ∧
      (Match.ofReply text = .ok none ↔
        ∃ raw, objectText? text = some raw ∧ Json.read? raw = some (.object [])) := by
  refine ⟨fun raw => objectText?_eq_some_iff, fun _ _ _ _ _ _ h h' => h.unique h',
    fun _ => object_of_objectIn, answers_objectIn text, answers_recordIn text,
    Match.answers_ofReply text, fun found => ⟨found.isForm_toJson, ?_⟩, Match.ofReply_eq_none_iff⟩
  rintro v style before after hform hbefore hafter rfl
  exact Match.ofReply_of_isForm hform style hbefore hafter

def plainMatch : Match := ⟨"Log in", Dict.empty⟩

@[irreducible]
def wordyReply : String :=
  "Sure: " ++ String.ofList (chars .compact plainMatch.toJson) ++ " (the only one)"

theorem reply_read_by_object_wordyReply :
    Splits wordyReply "Sure: " (String.ofList (chars .compact plainMatch.toJson))
        " (the only one)" ∧
      (∃ members, objectIn wordyReply = .ok (.object members)) ∧
      Match.ofReply wordyReply = .ok (some plainMatch) := by
  obtain ⟨hsplit, -, hobject, hread, -, -, hmatch, -⟩ := reply_read_by_object wordyReply
  have hform : plainMatch.IsForm plainMatch.toJson := (hmatch plainMatch).1
  have hsplits : Splits wordyReply "Sure: " (String.ofList (chars .compact plainMatch.toJson))
      " (the only one)" := by
    rw [wordyReply]
    exact hform.splits .compact (by decide) (by decide)
  have hfound : objectIn wordyReply = .ok plainMatch.toJson := by
    refine (hread.eq_ok_iff _).2 ?_
    rw [(hsplit _).2 ⟨_, _, hsplits⟩, Option.bind_some, hform.read?_chars]
  obtain ⟨members, hmembers⟩ := hobject _ hfound
  refine ⟨hsplits, ⟨members, ?_⟩, ?_⟩
  · rw [hfound, hmembers]
  · exact (hmatch plainMatch).2 plainMatch.toJson .compact "Sure: " " (the only one)" hform
      (by decide) (by decide) hsplits.eq

end StepScript
