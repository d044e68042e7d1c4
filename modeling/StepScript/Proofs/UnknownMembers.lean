import Mathlib.Data.List.Forall2
import StepScript.Chat.Message
import StepScript.Proofs.JsonRecord
import StepScript.Script.Record

/-!
Records and members that they do not know. A form is padded when the records in it, at any depth,
have further members under names that they do not know. Messages, tool calls, tools, matches and the
records of a script come back from each padding of their form.
-/

set_option autoImplicit false
set_option relaxedAutoImplicit false

namespace StepScript

namespace Json

mutual

/-- A value and the same with further members in its records, as a shape tells what they know. -/
def Padded : Shape → Json → Json → Prop
  | .record known, v, w =>
    ∃ d e : Dict Json, v = ofDict d ∧ w = ofDict e ∧ PaddedMembers known d e
  | .list item, v, w => ∃ vs ws, v = .array vs ∧ w = .array ws ∧ List.Forall₂ (Padded item) vs ws
  | .any, v, w | .text, v, w | .choice, v, w | .dict _, v, w => w = v

def PaddedMembers : List (String × Shape) → Dict Json → Dict Json → Prop
  | [], _, _ => True
  | (name, shape) :: known, d, e =>
    Option.Rel (Padded shape) (d.find? name) (e.find? name) ∧ PaddedMembers known d e

end

def Tolerates {α : Type} (shape : Shape) (encode : α → Json) (decode? : Json → Option α) : Prop :=
  ∀ a w, Padded shape (encode a) w → decode? w = some a

/-- The values of a type come back from each padding of their forms. -/
def ComesBack (α : Type) [Codec α] : Prop :=
  Tolerates (Codec.shape α) Codec.encode (Codec.decode? (α := α))

/-- A member that is left out is decoded as if it had some value. -/
def DefaultsTo {α : Type} (decode? : Json → Option α) (name : String) (v : Json) : Prop :=
  ∀ d : Dict Json, d.find? name = none → decode? (ofDict (d.insert name v)) = decode? (ofDict d)

/-! ## Padding -/

private theorem Padded.exists_members {known : List (String × Shape)}
    {members : List (String × Json)} {w : Json} (h : Padded (.record known) (ofMembers members) w) :
    ∃ e, w = ofDict e ∧ PaddedMembers known (Dict.ofList members) e := by
  obtain ⟨d, e, hd, rfl, hmembers⟩ := h
  obtain rfl : Dict.ofList members = d := Dict.ext (Json.object.inj hd)
  exact ⟨e, rfl, hmembers⟩

private theorem PaddedMembers.insert {known : List (String × Shape)} {d e : Dict Json}
    {name : String} (h : PaddedMembers known d e) (hname : ∀ m ∈ known, name ≠ m.1) (v : Json) :
    PaddedMembers known d (e.insert name v) := by
  induction known with
  | nil => trivial
  | cons m known ih =>
    obtain ⟨hmember, hrest⟩ := h
    refine ⟨?_, ih hrest fun n hn => hname n (List.mem_cons_of_mem m hn)⟩
    rwa [Dict.find?_insert, if_neg (hname m List.mem_cons_self)]

@[simp]
theorem find?_ofList (name : String) (members : List (String × Json)) :
    (Dict.ofList members).find? name = Dict.lookup name members.reverse :=
  lookup_ofList name members

@[simp]
theorem reverse_member {α : Type} (name : String) (encode : α → Json) (a? : Option α) :
    (member name encode a?).reverse = member name encode a? := by
  cases a? <;> rfl

@[simp]
theorem lookup_member_append {α : Type} (name other : String) (encode : α → Json) (a? : Option α)
    (members : List (String × Json)) :
    Dict.lookup name (member other encode a? ++ members) =
      if other = name then (a?.map encode).or (Dict.lookup name members)
      else Dict.lookup name members := by
  cases a? with
  | none => simp [member]
  | some a => by_cases h : other = name <;> simp [member, Dict.lookup, h]

/-! ## Reading padded members -/

variable {α : Type} {e : Dict Json} {name : String} {decode? : Json → Option α} {a default : α}

private theorem required?_of_rel {R : Json → Json → Prop} {v : Json}
    (h : Option.Rel R (some v) (e.find? name)) (hdecode : ∀ w, R v w → decode? w = some a) :
    required? decode? name e.entries = some a := by
  change (e.find? name).bind decode? = some a
  generalize e.find? name = w? at h
  cases h with
  | some hR => rw [Option.bind_some, hdecode _ hR]

private theorem defaulted?_of_rel {R : Json → Json → Prop} {v : Json}
    (h : Option.Rel R (some v) (e.find? name)) (hdecode : ∀ w, R v w → decode? w = some a) :
    defaulted? decode? default name e.entries = some a := by
  have hlookup : Dict.lookup name e.entries = e.find? name := rfl
  rw [defaulted?, hlookup]
  generalize e.find? name = w? at h
  cases h with
  | some hR => exact hdecode _ hR

private theorem defaulted?_of_rel_none {R : Json → Json → Prop}
    (h : Option.Rel R none (e.find? name)) :
    defaulted? decode? default name e.entries = some default := by
  have hlookup : Dict.lookup name e.entries = e.find? name := rfl
  rw [defaulted?, hlookup]
  generalize e.find? name = w? at h
  cases h with
  | none => rfl

private theorem text?_of_padded {s : String} {w : Json} (h : Padded .any (.string s) w) :
    text? w = some s := by
  rw [show w = .string s from h, text?_string]

private theorem required?_text_of_rel {s : String}
    (h : Option.Rel (Padded .any) (some (.string s)) (e.find? name)) :
    required? text? name e.entries = some s :=
  required?_of_rel h fun _ => text?_of_padded

private theorem defaulted?_text_of_rel {s default : String}
    (h : Option.Rel (Padded .any) (some (.string s)) (e.find? name)) :
    defaulted? text? default name e.entries = some s :=
  defaulted?_of_rel h fun _ => text?_of_padded

private theorem optional?_text_of_rel {s? : Option String}
    (h : Option.Rel (Padded .any) (s?.map .string) (e.find? name)) :
    optional? text? name e.entries = some s? := by
  cases s? with
  | none => exact defaulted?_of_rel_none h
  | some s =>
    refine defaulted?_of_rel h fun w hw => ?_
    rw [show w = .string s from hw]
    rfl

private theorem items?_of_padded {shape : Shape} {encode : α → Json} {decode? : Json → Option α}
    (h : Tolerates shape encode decode?) {items : List α} {w : Json}
    (hw : Padded (.list shape) (.array (items.map encode)) w) : items? decode? w = some items := by
  obtain ⟨vs, ws, hvs, rfl, hall⟩ := hw
  obtain rfl : items.map encode = vs := Json.array.inj hvs
  change ws.mapM decode? = some items
  induction items generalizing ws with
  | nil =>
    cases hall
    rfl
  | cons a items ih =>
    obtain ⟨w, ws, hw, hws, rfl⟩ := List.forall₂_cons_left_iff.1 hall
    simp [h a w hw, ih ws rfl hws]

end Json

open Json

/-! ## Records of a script -/

private theorem Action.tolerates : Tolerates Action.shape Action.toJson Action.ofJson? := by
  intro a w h
  obtain ⟨e, rfl, hmembers⟩ := h.exists_members
  obtain ⟨hname, htext, harg⟩ :
      Option.Rel (Padded .any) (some (.string a.name)) (e.find? "name") ∧
      Option.Rel (Padded .any) (some (.string a.text)) (e.find? "text") ∧
      Option.Rel (Padded .any) (a.arg.map .string) (e.find? "arg") := by
    simpa [PaddedMembers, Dict.lookup] using hmembers
  have hname' : required? text? "name" e.entries = some a.name :=
    required?_text_of_rel hname
  have htext' : required? text? "text" e.entries = some a.text :=
    required?_text_of_rel htext
  have harg' : optional? text? "arg" e.entries = some a.arg := optional?_text_of_rel harg
  simp [Action.ofJson?, ofDict, recordMembers?, hname', htext', harg']

private theorem pattern_tolerates : Tolerates patternShape
    (fun r : String × List Action => patternToJson r.1 r.2) patternOfJson? := by
  intro r w h
  obtain ⟨e, rfl, hmembers⟩ := h.exists_members
  obtain ⟨hpattern, hactions⟩ :
      Option.Rel (Padded .any) (some (.string r.1)) (e.find? "text") ∧
      Option.Rel (Padded (.list Action.shape)) (some (.array (r.2.map Action.toJson)))
        (e.find? "actions") := by
    simpa [PaddedMembers, Dict.lookup] using hmembers
  have hpattern' : required? text? "text" e.entries = some r.1 :=
    required?_text_of_rel hpattern
  have hactions' : required? (items? Action.ofJson?) "actions" e.entries = some r.2 :=
    required?_of_rel hactions fun _ => items?_of_padded Action.tolerates
  simp [patternOfJson?, ofDict, recordMembers?, hpattern', hactions']

private theorem Behavior.tolerates : Tolerates patternShape Behavior.toJson Behavior.ofJson? := by
  intro b w h
  rw [Behavior.ofJson?, pattern_tolerates (b.pattern, b.actions) w h, Option.map_some]

private theorem Step.tolerates : Tolerates patternShape Step.toJson Step.ofJson? := by
  intro s w h
  rw [Step.ofJson?, pattern_tolerates (s.pattern, s.actions) w h, Option.map_some]

private theorem Concept.tolerates :
    Tolerates (Codec.shape Concept) Concept.toJson Concept.ofJson? := by
  intro c w h
  obtain ⟨e, rfl, hmembers⟩ := h.exists_members
  obtain ⟨hname, hbehaviors⟩ :
      Option.Rel (Padded .any) (some (.string c.name)) (e.find? "name") ∧
      Option.Rel (Padded (.list patternShape)) (some (.array (c.behaviors.map Behavior.toJson)))
        (e.find? "behaviors") := by
    simpa [PaddedMembers, Dict.lookup] using hmembers
  have hname' : required? text? "name" e.entries = some c.name :=
    required?_text_of_rel hname
  have hbehaviors' : required? (items? Behavior.ofJson?) "behaviors" e.entries =
      some c.behaviors :=
    required?_of_rel hbehaviors fun _ => items?_of_padded Behavior.tolerates
  simp [Concept.ofJson?, ofDict, recordMembers?, hname', hbehaviors']

/-! ## Matches -/

private theorem Match.tolerates : Tolerates (Codec.shape Match) Match.toJson Match.ofJson? := by
  intro found w h
  obtain ⟨e, rfl, hmembers⟩ := h.exists_members
  obtain ⟨hpattern, hcaptures⟩ :
      Option.Rel (Padded .any) (some (.string found.pattern)) (e.find? "text") ∧
      Option.Rel (Padded (.dict .text)) (some (ofTexts found.captures)) (e.find? "args") := by
    simpa [PaddedMembers, Dict.lookup] using hmembers
  have hpattern' : required? text? "text" e.entries = some found.pattern :=
    required?_text_of_rel hpattern
  have hcaptures' : defaulted? (dict? text?) Dict.empty "args" e.entries =
      some found.captures := by
    refine defaulted?_of_rel hcaptures fun w hw => ?_
    rw [show w = ofTexts found.captures from hw, dict?_ofTexts text?_string]
  simp [Match.ofJson?, ofDict, recordMembers?, hpattern', hcaptures']

/-! ## Tool calls, tools and messages -/

private def ToolCall.functionShape : Shape := .record [("name", .any), ("arguments", .any)]

private def ToolCall.functionToJson (f : String × String) : Json :=
  .ofMembers [("name", .string f.1), ("arguments", .string f.2)]

private theorem ToolCall.function_tolerates :
    Tolerates functionShape functionToJson functionOfJson? := by
  intro f w h
  obtain ⟨e, rfl, hmembers⟩ := h.exists_members
  obtain ⟨hname, harguments⟩ :
      Option.Rel (Padded .any) (some (.string f.1)) (e.find? "name") ∧
      Option.Rel (Padded .any) (some (.string f.2)) (e.find? "arguments") := by
    simpa [PaddedMembers, Dict.lookup] using hmembers
  have hname' : required? text? "name" e.entries = some f.1 :=
    required?_text_of_rel hname
  have harguments' : defaulted? text? "" "arguments" e.entries = some f.2 :=
    defaulted?_text_of_rel harguments
  simp [functionOfJson?, ofDict, recordMembers?, hname', harguments']

private theorem ToolCall.tolerates : Tolerates ToolCall.shape ToolCall.toJson ToolCall.ofJson? := by
  intro call w h
  obtain ⟨e, rfl, hmembers⟩ := h.exists_members
  obtain ⟨hid, hkind, hfunction⟩ :
      Option.Rel (Padded .any) (some (.string call.id)) (e.find? "id") ∧
      Option.Rel (Padded .any) (some (.string call.kind)) (e.find? "type") ∧
      Option.Rel (Padded ToolCall.functionShape) (some (functionToJson (call.name, call.arguments)))
        (e.find? "function") := by
    simpa [PaddedMembers, Dict.lookup, functionToJson, functionShape] using hmembers
  have hid' : required? text? "id" e.entries = some call.id :=
    required?_text_of_rel hid
  have hkind' : defaulted? text? usualKind "type" e.entries = some call.kind :=
    defaulted?_text_of_rel hkind
  have hfunction' : required? functionOfJson? "function" e.entries =
      some (call.name, call.arguments) :=
    required?_of_rel hfunction (function_tolerates (call.name, call.arguments))
  simp [ofJson?, ofDict, recordMembers?, hid', hkind', hfunction']

private def Tool.functionShape : Shape :=
  .record [("name", .any), ("description", .any), ("parameters", .any)]

private def Tool.functionToJson (f : String × Option String × Json) : Json :=
  .ofMembers ([("name", .string f.1)] ++ member "description" .string f.2.1 ++
    [("parameters", f.2.2)])

private theorem Tool.function_tolerates :
    Tolerates functionShape functionToJson functionOfJson? := by
  intro f w h
  obtain ⟨e, rfl, hmembers⟩ := h.exists_members
  obtain ⟨hname, hdescription, hparameters⟩ :
      Option.Rel (Padded .any) (some (.string f.1)) (e.find? "name") ∧
      Option.Rel (Padded .any) (f.2.1.map .string) (e.find? "description") ∧
      Option.Rel (Padded .any) (some f.2.2) (e.find? "parameters") := by
    simpa [PaddedMembers, Dict.lookup] using hmembers
  have hname' : required? text? "name" e.entries = some f.1 := required?_text_of_rel hname
  have hdescription' : optional? text? "description" e.entries = some f.2.1 :=
    optional?_text_of_rel hdescription
  have hparameters' : required? some "parameters" e.entries = some f.2.2 :=
    required?_of_rel hparameters fun _ hw => congrArg some hw
  simp [functionOfJson?, ofDict, recordMembers?, hname', hdescription', hparameters']

private theorem Tool.tolerates : Tolerates (Codec.shape Tool) Tool.toJson Tool.ofJson? := by
  intro t w h
  obtain ⟨e, rfl, hmembers⟩ := h.exists_members
  obtain ⟨hkind, hfunction⟩ :
      Option.Rel (Padded .any) (some (.string t.kind)) (e.find? "type") ∧
      Option.Rel (Padded Tool.functionShape)
        (some (functionToJson (t.name, t.description, t.parameters))) (e.find? "function") := by
    simpa [PaddedMembers, Dict.lookup, functionToJson, functionShape] using hmembers
  have hkind' : defaulted? text? usualKind "type" e.entries = some t.kind :=
    defaulted?_text_of_rel hkind
  have hfunction' : required? functionOfJson? "function" e.entries =
      some (t.name, t.description, t.parameters) := by
    refine required?_of_rel hfunction fun w hw => ?_
    refine function_tolerates (t.name, t.description, t.parameters) w ?_
    simpa using hw
  simp [ofJson?, ofDict, recordMembers?, hkind', hfunction']

private theorem Role.ofName?_name (role : Role) : Role.ofName? role.name = some role := by
  cases role <;> rfl

private def Message.calls? (m : Message) : Option (List ToolCall) :=
  if m.toolCalls.isEmpty then none else some m.toolCalls

private theorem Message.toJson_eq (m : Message) : m.toJson = .ofMembers
    ([("role", .string m.role.name), ("content", textOrNull m.content)] ++
      member "tool_calls" (fun calls => .array (calls.map ToolCall.toJson)) m.calls? ++
      member "tool_call_id" .string m.answers) := by
  rw [toJson, calls?]
  cases m.toolCalls <;> rfl

private theorem Message.tolerates : Tolerates Message.shape Message.toJson Message.ofJson? := by
  intro m w h
  rw [toJson_eq] at h
  obtain ⟨e, rfl, hmembers⟩ := h.exists_members
  obtain ⟨hrole, hcontent, hcalls, hanswers⟩ :
      Option.Rel (Padded .choice) (some (.string m.role.name)) (e.find? "role") ∧
      Option.Rel (Padded .any) (some (textOrNull m.content)) (e.find? "content") ∧
      Option.Rel (Padded (.list ToolCall.shape))
        (m.calls?.map fun calls => .array (calls.map ToolCall.toJson)) (e.find? "tool_calls") ∧
      Option.Rel (Padded .any) (m.answers.map .string) (e.find? "tool_call_id") := by
    simpa [PaddedMembers, Dict.lookup] using hmembers
  have hrole' : required? (choice? Role.ofName?) "role" e.entries = some m.role := by
    refine required?_of_rel hrole fun w hw => ?_
    rw [show w = .string m.role.name from hw, choice?, Role.ofName?_name]
  have hcontent' : optional? text? "content" e.entries = some m.content := by
    refine defaulted?_of_rel hcontent fun w hw => ?_
    rw [show w = textOrNull m.content from hw]
    cases m.content <;> rfl
  have hcalls' : defaulted? (items? ToolCall.ofJson?) [] "tool_calls" e.entries =
      some m.toolCalls := by
    rw [calls?] at hcalls
    split at hcalls
    · next hempty =>
      rw [List.isEmpty_iff.1 hempty]
      exact defaulted?_of_rel_none hcalls
    · exact defaulted?_of_rel hcalls fun w hw => items?_of_padded ToolCall.tolerates hw
  have hanswers' : optional? text? "tool_call_id" e.entries = some m.answers :=
    optional?_text_of_rel hanswers
  simp [ofJson?, ofDict, recordMembers?, hrole', hcontent', hcalls', hanswers']

/-! ## Members that are left out -/

namespace Json

section LeftOut

variable {α : Type} {decode? : Json → Option α} {default : α} {d : Dict Json} {name other : String}
  {v : Json}

private theorem lookup_insert_of_ne (h : name ≠ other) :
    Dict.lookup other (d.insert name v).entries = Dict.lookup other d.entries :=
  (d.find?_insert name other v).trans (if_neg h)

private theorem required?_insert_of_ne (h : name ≠ other) :
    required? decode? other (d.insert name v).entries = required? decode? other d.entries := by
  rw [required?, lookup_insert_of_ne h, required?]

private theorem defaulted?_insert_of_ne (h : name ≠ other) :
    defaulted? decode? default other (d.insert name v).entries =
      defaulted? decode? default other d.entries := by
  rw [defaulted?, lookup_insert_of_ne h, defaulted?]

private theorem defaulted?_insert_default (hdefault : decode? v = some default)
    (h : d.find? name = none) :
    defaulted? decode? default name (d.insert name v).entries =
      defaulted? decode? default name d.entries := by
  have hsame : Dict.lookup name (d.insert name v).entries = some v :=
    (d.find?_insert name name v).trans (if_pos rfl)
  rw [defaulted?, hsame, defaulted?, show Dict.lookup name d.entries = none from h]
  exact hdefault

private theorem optional?_insert_of_ne (h : name ≠ other) :
    optional? decode? other (d.insert name v).entries = optional? decode? other d.entries :=
  defaulted?_insert_of_ne h

private theorem optional?_insert_null (h : d.find? name = none) :
    optional? decode? name (d.insert name .null).entries = optional? decode? name d.entries :=
  defaulted?_insert_default rfl h

private theorem defaulted?_text_insert {s : String} (h : d.find? name = none) :
    defaulted? text? s name (d.insert name (.string s)).entries =
      defaulted? text? s name d.entries :=
  defaulted?_insert_default rfl h

end LeftOut

end Json

private theorem Message.defaultsTo :
    DefaultsTo Message.ofJson? "content" .null ∧
      DefaultsTo Message.ofJson? "tool_calls" (.array []) ∧
      DefaultsTo Message.ofJson? "tool_call_id" .null := by
  have hcalls : items? ToolCall.ofJson? (.array []) = some [] := rfl
  refine ⟨fun d h => ?_, fun d h => ?_, fun d h => ?_⟩
  · simp [ofJson?, ofDict, recordMembers?, required?_insert_of_ne, defaulted?_insert_of_ne,
      optional?_insert_of_ne, optional?_insert_null h]
  · simp [ofJson?, ofDict, recordMembers?, required?_insert_of_ne, optional?_insert_of_ne,
      defaulted?_insert_default hcalls h]
  · simp [ofJson?, ofDict, recordMembers?, required?_insert_of_ne, defaulted?_insert_of_ne,
      optional?_insert_of_ne, optional?_insert_null h]

private theorem ToolCall.defaultsTo :
    DefaultsTo ToolCall.ofJson? "type" (.string usualKind) ∧
      DefaultsTo ToolCall.functionOfJson? "arguments" (.string "") := by
  refine ⟨fun d h => ?_, fun d h => ?_⟩
  · simp [ofJson?, ofDict, recordMembers?, required?_insert_of_ne, defaulted?_text_insert h]
  · simp [functionOfJson?, ofDict, recordMembers?, required?_insert_of_ne, defaulted?_text_insert h]

private theorem Tool.defaultsTo :
    DefaultsTo Tool.ofJson? "type" (.string usualKind) ∧
      DefaultsTo Tool.functionOfJson? "description" .null := by
  refine ⟨fun d h => ?_, fun d h => ?_⟩
  · simp [ofJson?, ofDict, recordMembers?, required?_insert_of_ne, defaulted?_text_insert h]
  · simp [functionOfJson?, ofDict, recordMembers?, required?_insert_of_ne, optional?_insert_null h]

private theorem Match.defaultsTo : DefaultsTo Match.ofJson? "args" (.object []) := by
  have hcaptures : dict? text? (.object []) = some Dict.empty := rfl
  intro d h
  simp [ofJson?, ofDict, recordMembers?, required?_insert_of_ne,
    defaulted?_insert_default hcaptures h]

private theorem Action.defaultsTo : DefaultsTo Action.ofJson? "arg" .null := by
  intro d h
  simp [ofJson?, ofDict, recordMembers?, required?_insert_of_ne, optional?_insert_null h]

/-! ## All records -/

/-- The records of conversations and scripts come back from their forms, whatever members these have
besides the known ones, at any depth; so records that differ have no form in common. A member that
is left out counts as its default: `null`, no calls, no captures, the usual kind or an empty text of
arguments. -/
theorem records_come_back :
    (ComesBack Message ∧ ComesBack ToolCall ∧ ComesBack Tool ∧ ComesBack Match ∧
      ComesBack Action ∧ ComesBack Behavior ∧ ComesBack Concept ∧ ComesBack Step) ∧
      (DefaultsTo Message.ofJson? "content" .null ∧
        DefaultsTo Message.ofJson? "tool_calls" (.array []) ∧
        DefaultsTo Message.ofJson? "tool_call_id" .null) ∧
      (DefaultsTo ToolCall.ofJson? "type" (.string usualKind) ∧
        DefaultsTo ToolCall.functionOfJson? "arguments" (.string "")) ∧
      (DefaultsTo Tool.ofJson? "type" (.string usualKind) ∧
        DefaultsTo Tool.functionOfJson? "description" .null) ∧
      DefaultsTo Match.ofJson? "args" (.object []) ∧ DefaultsTo Action.ofJson? "arg" .null :=
  ⟨⟨Message.tolerates, ToolCall.tolerates, Tool.tolerates, Match.tolerates, Action.tolerates,
    Behavior.tolerates, Concept.tolerates, Step.tolerates⟩, Message.defaultsTo,
    ToolCall.defaultsTo, Tool.defaultsTo, Match.defaultsTo, Action.defaultsTo⟩

def paddedCall : Json :=
  ofDict ((Dict.ofList [("id", .string "1"), ("type", .string usualKind),
    ("function", ofDict ((Dict.ofList [("name", .string "look"),
      ("arguments", .string "")]).insert "strict" (.bool true)))]).insert "index" (.ofNat 0))

theorem records_come_back_paddedCall :
    Padded ToolCall.shape (ToolCall.function "1" "look" "").toJson paddedCall ∧
      ToolCall.ofJson? paddedCall = some (.function "1" "look" "") := by
  have hfunction : PaddedMembers [("name", .any), ("arguments", .any)]
      (Dict.ofList [("name", .string "look"), ("arguments", .string "")])
      (Dict.ofList [("name", .string "look"), ("arguments", .string "")]) := by
    simp only [PaddedMembers, find?_ofList]
    exact ⟨.some rfl, .some rfl, trivial⟩
  have hcall : Padded ToolCall.shape (ToolCall.function "1" "look" "").toJson paddedCall := by
    refine ⟨_, _, rfl, rfl, PaddedMembers.insert ?_ (by decide) _⟩
    simp only [PaddedMembers, find?_ofList]
    exact ⟨.some rfl, .some rfl, .some ⟨_, _, rfl, rfl, hfunction.insert (by decide) _⟩, trivial⟩
  exact ⟨hcall, records_come_back.1.2.1 _ _ hcall⟩

end StepScript
