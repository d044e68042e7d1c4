import StepScript.Outcome
import StepScript.Proofs.JsonRecord

/-!
The JSON form of an outcome. An outcome comes back from its form, and a result that is decoded has
the keys of the object that it is decoded from, with a text for each value there; so what is decoded
does not change when it is encoded and decoded once more.
-/

set_option autoImplicit false
set_option relaxedAutoImplicit false

namespace StepScript

open Json

private theorem Dict.find?_ofList_map {α β : Type} (f : α → β) (entries : List (String × α))
    (key : String) :
    (Dict.ofList (entries.map fun entry => (entry.1, f entry.2))).find? key =
      ((Dict.ofList entries).find? key).map f := by
  have hlookup (es : List (String × α)) : Dict.lookup key (es.map fun e => (e.1, f e.2)) =
      (Dict.lookup key es).map f := by
    induction es with
    | nil => rfl
    | cons e es ih =>
      by_cases h : e.1 = key
      · simp [Dict.lookup, h]
      · simpa [Dict.lookup, h] using ih
  rw [Dict.ofList, Dict.find?_insertAll, ← List.map_reverse, hlookup, Dict.ofList,
    Dict.find?_insertAll]
  simp

namespace Outcome

private theorem ofJson?_toJson (o : Outcome) : ofJson? o.toJson = some o := by
  obtain ⟨success, result, error⟩ := o
  have hresult (r : Dict String) :
      nullable? (dict? fun v => some (resultText v)) (ofTexts r) = some (some r) :=
    congrArg (Option.map some) (dict?_ofTexts (fun _ => rfl) r)
  have herror (s : String) : nullable? text? (.string s) = some (some s) := rfl
  cases result <;> cases error <;>
    simp [ofJson?, toJson, member, recordMembers?_ofMembers, lookup_ofList, required?, optional?,
      defaulted?, Dict.lookup, bool?, hresult, herror]

/-- The text that a value is read as in a result. -/
inductive IsText : Json → String → Prop
  | string (s : String) : IsText (.string s) s
  | null : IsText .null ""
  | other (v : Json) (hstring : ∀ s, v ≠ .string s) (hnull : v ≠ .null) : IsText v v.compact

private theorem isText_resultText (v : Json) : IsText v (resultText v) := by
  unfold resultText
  split
  · exact .string _
  · exact .null
  · next hstring hnull => exact .other v hstring hnull

def resultOf (fields : List (String × Json)) : Dict String :=
  Dict.ofList (fields.map fun field => (field.1, resultText field.2))

private theorem rel_isText_resultOf (fields : List (String × Json)) (key : String) :
    Option.Rel IsText ((Dict.ofList fields).find? key) ((resultOf fields).find? key) := by
  rw [resultOf, Dict.find?_ofList_map]
  cases (Dict.ofList fields).find? key with
  | none => exact .none
  | some v => exact .some (isText_resultText v)

private theorem resultOf_eq_empty_iff {fields : List (String × Json)} :
    resultOf fields = Dict.empty ↔ fields = [] := by
  constructor
  · intro h
    refine List.eq_nil_iff_forall_not_mem.2 fun field hfield => ?_
    have hnone : (resultOf fields).find? field.1 = none := by rw [h, Dict.find?_empty]
    refine Dict.find?_ofList_eq_none_iff.1 hnone ?_
    exact List.mem_map.2 ⟨_, List.mem_map_of_mem hfield, rfl⟩
  · rintro rfl
    rfl

private theorem dict?_resultText (fields : List (String × Json)) :
    dict? (fun v => some (resultText v)) (.object fields) = some (resultOf fields) := by
  have hmap : fields.mapM (fun field => some (field.1, resultText field.2)) =
      some (fields.map fun field => (field.1, resultText field.2)) := List.mapM_pure
  simp [dict?, hmap, resultOf]

private theorem result_of_ofJson? {members : List (String × Json)} {o : Outcome}
    (h : ofJson? (.object members) = some o) :
    (o.result = none ∧ ∀ fields, Dict.lookup "result" members ≠ some (.object fields)) ∨
      ∃ fields, Dict.lookup "result" members = some (.object fields) ∧
        o.result = some (resultOf fields) := by
  have hresult : optional? (dict? fun v => some (resultText v)) "result" members =
      some o.result := by
    simp only [ofJson?, recordMembers?, Option.bind_eq_bind, Option.bind_some,
      Option.bind_eq_some_iff] at h
    obtain ⟨success, -, result, hresult, error, -, ho⟩ := h
    cases ho
    exact hresult
  unfold optional? defaulted? at hresult
  cases hlookup : Dict.lookup "result" members with
  | none =>
    rw [hlookup] at hresult
    exact .inl ⟨(Option.some.inj hresult).symm, nofun⟩
  | some v =>
    rw [hlookup] at hresult
    cases v with
    | object fields =>
      simp only [nullable?, dict?_resultText, Option.map_some, Option.some.injEq] at hresult
      exact .inr ⟨fields, rfl, hresult.symm⟩
    | null => exact .inl ⟨(Option.some.inj hresult).symm, nofun⟩
    | bool b => cases hresult
    | number n => cases hresult
    | string s => cases hresult
    | array items => cases hresult

/-- An outcome comes back from its form, an absent result as absent and an empty one as empty. A
result that is decoded has just the keys of the object there, each with the text of its value. So to
encode and decode once more changes nothing. -/
theorem decoded_as_encoded :
    (∀ o : Outcome, ofJson? o.toJson = some o) ∧
      (∀ members o, ofJson? (.object members) = some o →
        (∀ result, o.result = some result → ∃ fields,
          Dict.lookup "result" members = some (.object fields) ∧
            ∀ key, Option.Rel IsText ((Dict.ofList fields).find? key) (result.find? key)) ∧
          (o.result = some Dict.empty ↔ Dict.lookup "result" members = some (.object []))) ∧
      ∀ v, ((ofJson? v).bind fun o => ofJson? o.toJson) = ofJson? v := by
  refine ⟨ofJson?_toJson, fun members o h => ?_, fun v => ?_⟩
  · rcases result_of_ofJson? h with ⟨hnone, hno⟩ | ⟨fields, hlookup, hresult⟩
    · rw [hnone]
      exact ⟨nofun, nofun, fun hempty => absurd hempty (hno [])⟩
    · rw [hresult, hlookup]
      refine ⟨?_, by simp [resultOf_eq_empty_iff]⟩
      rintro _ ⟨⟩
      exact ⟨fields, rfl, rel_isText_resultOf fields⟩
  · simp only [ofJson?_toJson, Option.bind_fun_some]

def countedMembers : List (String × Json) :=
  [("result", .object [("count", .ofNat 1), ("gap", .null), ("name", .string "Ann")]),
    ("success", .bool true)]

theorem decoded_as_encoded_countedMembers :
    ∃ o result, ofJson? (.object countedMembers) = some o ∧ o.result = some result ∧
      ∀ key, Option.Rel IsText ((Dict.ofList
        [("count", .ofNat 1), ("gap", .null), ("name", .string "Ann")]).find? key)
          (result.find? key) := by
  have hdecode : ofJson? (.object countedMembers) = some (.returning (.ofList
      [("count", "1"), ("gap", ""), ("name", "Ann")])) := by decide +kernel
  obtain ⟨fields, hlookup, hrel⟩ := (decoded_as_encoded.2.1 _ _ hdecode).1 _ rfl
  cases hlookup
  exact ⟨_, _, hdecode, rfl, hrel⟩

end Outcome
end StepScript
