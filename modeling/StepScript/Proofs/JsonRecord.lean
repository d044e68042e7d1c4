import StepScript.Matcher
import StepScript.Proofs.JsonText

/-!
What is stored as JSON is read back as the same record. A value fits a shape when reading it under
the shape passes over nothing; a value that fits is read whole, so a record whose form fits its
shape comes back from the bytes that it was written as. Matches and lists of tool calls do.
-/

set_option autoImplicit false
set_option relaxedAutoImplicit false

namespace StepScript.Json

open Document

/-- A value that reading under a shape leaves as it is, with brackets nested to some depth. -/
inductive Fits : Nat → Shape → Json → Prop
  | string (room : Nat) (shape : Shape) (s : String) : Fits room shape (.string s)
  | list {room : Nat} {item : Shape} {items : List Json} :
      (∀ v ∈ items, Fits room item v) → Fits (room + 1) (.list item) (.array items)
  | dict {room : Nat} {item : Shape} (d : Dict Json) :
      (∀ m ∈ d.entries, Fits room item m.2) → Fits (room + 1) (.dict item) (ofDict d)
  | record {room : Nat} {known : List (String × Shape)} (d : Dict Json)
      (shapeOf : String → Shape) :
      (∀ m ∈ d.entries, Shape.member? m.1 known = some (shapeOf m.1)) →
      (∀ m ∈ d.entries, Fits room (shapeOf m.1) m.2) →
      Fits (room + 1) (.record known) (ofDict d)

theorem Fits.legible {room : Nat} {shape : Shape} {v : Json} (h : Fits room shape v) :
    Legible v := by
  induction h with
  | string _ _ s => exact legible_string s
  | list _ ih => exact legible_array ih
  | dict _ _ ih => exact legible_object ih
  | record _ _ _ _ ih => exact legible_object ih

private theorem readItems?_ofValues {room : Nat} {shape : Shape} {items : List Json}
    (h : ∀ v ∈ items, Document.readAs? room shape (.ofValue v) = some v) :
    readItems? room shape (Document.ofValues items) = some items := by
  induction items with
  | nil => rfl
  | cons item items ih =>
    simp [Document.ofValues, readItems?, h item, ih fun v hv => h v (by simp [hv])]

private theorem readMembers?_ofMembers {room : Nat} {shape : Shape}
    {members : List (String × Json)}
    (h : ∀ m ∈ members, Document.readAs? room shape (.ofValue m.2) = some m.2) :
    readMembers? room shape (Document.ofMembers members) = some members := by
  induction members with
  | nil => rfl
  | cons m members ih =>
    obtain ⟨name, v⟩ := m
    simp [Document.ofMembers, readMembers?, h (name, v), ih fun m hm => h m (by simp [hm])]

private theorem readKnown?_ofMembers {room : Nat} {known : List (String × Shape)}
    {shapeOf : String → Shape} {members : List (String × Json)}
    (hknown : ∀ m ∈ members, Shape.member? m.1 known = some (shapeOf m.1))
    (h : ∀ m ∈ members, Document.readAs? room (shapeOf m.1) (.ofValue m.2) = some m.2) :
    readKnown? room known (Document.ofMembers members) = some members := by
  induction members with
  | nil => rfl
  | cons m members ih =>
    obtain ⟨name, v⟩ := m
    have hname := hknown (name, v) (by simp)
    have hv := h (name, v) (by simp)
    have htail := ih (fun m hm => hknown m (by simp [hm])) (fun m hm => h m (by simp [hm]))
    simp [Document.ofMembers, readKnown?, hname, hv, htail]

private theorem allDistinct_of_ascending {members : List (String × Json)}
    (h : members.Pairwise fun a b => a.1 < b.1) :
    allDistinct (members.map Prod.fst) = true := by
  induction members with
  | nil => rfl
  | cons m members ih =>
    have hm := List.pairwise_cons.1 h
    have hnot : m.1 ∉ members.map Prod.fst := by
      intro hmem
      obtain ⟨n, hn, heq⟩ := List.mem_map.1 hmem
      exact String.lt_irrefl m.1 (heq ▸ hm.1 n hn)
    simp only [List.map_cons, allDistinct, ih hm.2, Bool.and_true, Bool.not_eq_true',
      List.contains_eq_mem, decide_eq_false_iff_not]
    exact hnot

private theorem ofMembers_entries (d : Dict Json) : ofMembers d.entries = ofDict d := by
  rw [ofMembers, Dict.ext (Dict.entries_ofList d.ascending)]

theorem readAs?_of_fits {room : Nat} {shape : Shape} {v : Json} (h : Fits room shape v) :
    Document.readAs? room shape (.ofValue v) = some v := by
  induction h with
  | string room shape s => simp [Document.ofValue, Document.readAs?]
  | list _ ih => simp [Document.ofValue, Document.readAs?, readItems?_ofValues ih]
  | dict d _ ih =>
    have hread := readMembers?_ofMembers ih
    simpa [ofDict, Document.ofValue, Document.readAs?, hread] using ofMembers_entries d
  | record d shapeOf hknown _ ih =>
    have hread := readKnown?_ofMembers hknown ih
    have hdistinct := allDistinct_of_ascending d.ascending
    simpa [ofDict, Document.ofValue, Document.readAs?, hread, hdistinct] using ofMembers_entries d

/-- A value comes back from the bytes that it is stored as. -/
def ReadsBack {α : Type} [Codec α] (a : α) : Prop :=
  decodeBytes? (Codec.encode a).indented.toUTF8 = some a

private theorem readsBack_of_fits {α : Type} [Codec α] {a : α}
    (hfits : Fits depthLimit (Codec.shape α) (Codec.encode a))
    (hdecode : Codec.decode? (Codec.encode a) = some a) : ReadsBack a := by
  have hdocument : Document.ofBytes? (Codec.encode a).indented.toUTF8 =
      some (.ofValue (Codec.encode a)) := by
    rw [Document.ofBytes?, Text.signsOfBytes_toUTF8]
    exact ofText?_chars hfits.legible (.indented 0)
  rw [ReadsBack, decodeBytes?, hdocument, Option.bind_some, readAs?_of_fits hfits,
    Option.bind_some, hdecode]

/-! ## Records -/

theorem recordMembers?_ofMembers (names : List String) (members : List (String × Json)) :
    recordMembers? names (ofMembers members) = some (Dict.ofList members).entries := rfl

theorem lookup_ofList (name : String) (members : List (String × Json)) :
    Dict.lookup name (Dict.ofList members).entries = Dict.lookup name members.reverse := by
  have h := Dict.find?_insertAll Dict.empty members name
  rwa [Dict.find?_empty, Option.or_none] at h

private theorem fits_ofMembers {room : Nat} {known : List (String × Shape)}
    {members : List (String × Json)} (shapeOf : String → Shape)
    (hknown : ∀ m ∈ members, Shape.member? m.1 known = some (shapeOf m.1))
    (hfits : ∀ m ∈ members, Fits room (shapeOf m.1) m.2) :
    Fits (room + 1) (.record known) (ofMembers members) :=
  .record (Dict.ofList members) shapeOf (fun m hm => hknown m (Dict.mem_of_mem_ofList hm))
    fun m hm => hfits m (Dict.mem_of_mem_ofList hm)

theorem mapM_map_of_decode {α β : Type} (encode : α → β) {decode? : β → Option α}
    (h : ∀ a, decode? (encode a) = some a) (items : List α) :
    (items.map encode).mapM decode? = some items := by
  induction items with
  | nil => rfl
  | cons a items ih => simp [h, ih]

private theorem fits_ofTexts (room : Nat) (d : Dict String) :
    Fits (room + 1) (.dict .text) (ofTexts d) := by
  refine .dict _ fun m hm => ?_
  obtain ⟨e, -, rfl⟩ := List.mem_map.1 hm
  exact .string room .text e.2

@[simp]
theorem text?_string (s : String) : text? (.string s) = some s := rfl

theorem dict?_ofTexts {decode? : Json → Option String} (h : ∀ s, decode? (.string s) = some s)
    (d : Dict String) : dict? decode? (ofTexts d) = some d := by
  have hentries : (d.mapValues Json.string).entries.mapM
      (fun m => (decode? m.2).map fun v => (m.1, v)) = some d.entries :=
    mapM_map_of_decode (fun e : String × String => (e.1, Json.string e.2))
      (fun e => by rw [h, Option.map_some]) d.entries
  simp only [ofTexts, ofDict, dict?, hentries, Option.bind_eq_bind, Option.bind_some]
  exact congrArg some (Dict.ext (Dict.entries_ofList d.ascending))

end StepScript.Json

namespace StepScript

open Json

private theorem Match.fits_toJson (room : Nat) (found : Match) :
    Fits (room + 2) (Codec.shape Match) found.toJson := by
  refine fits_ofMembers (fun name => if name = "args" then .dict .text else .any) ?_ ?_
  · simp [Shape.member?]
  · simpa using ⟨.string _ _ _, fits_ofTexts _ _⟩

theorem Match.ofJson?_toJson (found : Match) : ofJson? found.toJson = some found := by
  simp [ofJson?, toJson, recordMembers?_ofMembers, lookup_ofList, required?, defaulted?,
    Dict.lookup, dict?_ofTexts text?_string]

theorem Match.readsBack (found : Match) : ReadsBack found :=
  readsBack_of_fits (fits_toJson _ found) (ofJson?_toJson found)

namespace ToolCall

private def memberShape (name : String) : Shape :=
  if name = "function" then .record [("name", .any), ("arguments", .any)] else .any

private theorem fits_toJson (room : Nat) (call : ToolCall) :
    Fits (room + 2) shape call.toJson := by
  refine fits_ofMembers memberShape (by simp [Shape.member?, memberShape]) ?_
  have hfunction : Fits (room + 1) (.record [("name", .any), ("arguments", .any)])
      (.ofMembers [("name", .string call.name), ("arguments", .string call.arguments)]) := by
    refine fits_ofMembers (fun _ => .any) (by simp [Shape.member?]) ?_
    simpa using ⟨.string _ _ _, .string _ _ _⟩
  simpa [memberShape] using ⟨.string _ _ _, .string _ _ _, hfunction⟩

private theorem ofJson?_toJson (call : ToolCall) : ofJson? call.toJson = some call := by
  simp [ofJson?, functionOfJson?, toJson, recordMembers?_ofMembers, lookup_ofList, required?,
    defaulted?, Dict.lookup, text?]

theorem readsBack (calls : List ToolCall) : ReadsBack calls := by
  refine readsBack_of_fits (.list fun v hv => ?_) (mapM_map_of_decode toJson ofJson?_toJson calls)
  obtain ⟨call, -, rfl⟩ := List.mem_map.1 hv
  exact fits_toJson _ call

end ToolCall
end StepScript
