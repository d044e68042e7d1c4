import StepScript.Provider.Browser
import StepScript.Proofs.JsonRecord
import StepScript.Proofs.Log

/-!
Calls of the tools that a browser is offered through. A tool on offer says by its schema which
properties a call has to give; what a call does is decided apart from that, by its name. The two
agree: a call that gives an offered tool what the schema requires is carried out as the operation of
that tool with just these texts, and any other call is refused before the browser is touched.
-/

set_option autoImplicit false
set_option relaxedAutoImplicit false

namespace StepScript

open Json

def Tool.required (tool : Tool) : List String :=
  match tool.parameters.member? "required" with
  | some (.array names) => names.filterMap text?
  | _ => []

/-! ## Arguments -/

private theorem Text.isDigit_eq_false_of_isBlank {c : Char} (h : isBlank c = true) :
    c.isDigit = false := by
  have hranges : ∀ range ∈ blankRanges, range.2 < 48 ∨ 57 < range.1 := by decide
  obtain ⟨range, hmem, hrange⟩ := List.any_eq_true.1 h
  simp only [Bool.and_eq_true, decide_eq_true_eq] at hrange
  have hout : c.toNat < 48 ∨ 57 < c.toNat := by
    rcases hranges range hmem with hlow | hhigh
    · exact .inl (by omega)
    · exact .inr (by omega)
  simp only [Char.isDigit, Bool.and_eq_false_iff, decide_eq_false_iff_not, ge_iff_le,
    UInt32.le_iff_toNat_le]
  exact hout.imp Nat.not_le.2 Nat.not_le.2

namespace Json.Document

private theorem number?_of_isBlank {c : Char} (h : Text.isBlank c = true) (rest : Text.Signs) :
    number? (some c :: rest) = none := by
  have hdigits : digits? (some c :: rest) = none := by
    simp [digits?, Text.isDigit_eq_false_of_isBlank h]
  have hunsigned : unsigned? false (some c :: rest) = none := by
    simp [unsigned?, whole?, hdigits]
  unfold number?
  split
  · next heq =>
    cases heq
    exact absurd h (by decide)
  · exact hunsigned

private theorem value?_of_blank {cs : List Char} (h : ∀ c ∈ cs, Text.isBlank c = true)
    (fuel : Nat) : value? fuel (cs.map some) = none := by
  cases fuel with
  | zero => rfl
  | succ fuel =>
    have hskip : skipGap (cs.map some) = (cs.dropWhile isGap).map some := by
      rw [skipGap, List.dropWhile_map]
      rfl
    rw [value?, hskip]
    cases hrest : cs.dropWhile isGap with
    | nil => rfl
    | cons c rest =>
      have hc : Text.isBlank c = true :=
        h c ((List.dropWhile_sublist _).subset (hrest ▸ List.mem_cons_self))
      have hne {d : Char} (hd : Text.isBlank d = false) : c ≠ d := by
        rintro rfl
        exact absurd hc (by simp [hd])
      -- A blank character that is no gap starts no value: it opens nothing, and it is no digit.
      rw [List.map_cons]
      split
      case h_1 heq => cases heq
      case h_8 => rw [number?_of_isBlank hc, Option.map_none]
      all_goals
        next heq => exact absurd (Option.some.inj (List.cons.inj heq).1) (hne (by decide))

end Json.Document

private theorem Json.read?_of_allBlank {s : String} (h : Text.allBlank s = true) :
    Json.read? s = none := by
  have hblank : ∀ c ∈ s.toList, Text.isBlank c = true := List.all_eq_true.1 h
  have hdocument : Document.ofText? s = none := by
    rw [Document.ofText?, Document.ofSigns?, Text.signsOfText, Document.value?_of_blank hblank]
  rw [Json.read?, Json.readAs?, hdocument, Option.bind_none]

private theorem ToolCall.arguments?_eq_some_iff {call : ToolCall} {arguments : Json} :
    call.arguments? = some arguments ↔
      (Text.allBlank call.arguments = true ∧ arguments = .object []) ∨
        Json.read? call.arguments = some arguments := by
  unfold arguments?
  split
  next hblank => simp [hblank, read?_of_allBlank hblank, eq_comm]
  next hblank => simp [hblank]

private theorem Json.read?_compact_ofTexts (d : Dict String) :
    Json.read? (ofTexts d).compact = some (ofTexts d) := by
  have hfits : Fits depthLimit (.dict .any) (ofTexts d) := by
    refine .dict _ fun m hm => ?_
    obtain ⟨e, -, rfl⟩ := List.mem_map.1 hm
    exact .string _ _ e.2
  have hdocument : Document.ofText? (ofTexts d).compact = some (.ofValue (ofTexts d)) :=
    ofText?_chars hfits.legible .compact
  have hread : Document.readAs? depthLimit (.dict .any) (.ofValue (ofTexts d)) =
      some (ofTexts d) := readAs?_of_fits hfits
  rw [Json.read?, Json.readAs?, hdocument, Option.bind_some]
  exact hread

namespace BrowserActions

/-! ## Operations and the tools they are offered as -/

namespace Operation

def toolName : Operation → String
  | .openUrl _ => "open"
  | .saveScreenshot _ => "saveScreenshot"
  | .saveVideo _ => "saveVideo"
  | .deleteVideo => "deleteVideo"
  | .addLocalStorageItem _ _ => "addItemInLocalStorage"
  | .quit => "quit"

def inputs : Operation → List (String × String)
  | .openUrl url => [("url", url)]
  | .saveScreenshot name => [("name", name)]
  | .saveVideo name => [("name", name)]
  | .deleteVideo => []
  | .addLocalStorageItem key value => [("key", key), ("value", value)]
  | .quit => []

/-- An operation is the one of a tool, with the texts of some arguments for all that the tool's
schema requires and for nothing else. -/
structure Serves (op : Operation) (tool : Tool) (arguments : Json) : Prop where
  named : op.toolName = tool.name
  required : tool.required = op.inputs.map Prod.fst
  filled : ∀ input ∈ op.inputs, arguments.member? input.1 = some (.string input.2)

private theorem Serves.given {op : Operation} {tool : Tool} {arguments : Json} {property : String}
    (h : op.Serves tool arguments) (hproperty : property ∈ tool.required) :
    ∃ text, arguments.member? property = some (.string text) := by
  rw [h.required] at hproperty
  obtain ⟨input, hinput, rfl⟩ := List.mem_map.1 hproperty
  exact ⟨input.2, h.filled input hinput⟩

end Operation

private theorem textArgument_eq_ok_iff {arguments : Json} {name text : String} :
    textArgument arguments name = .ok text ↔ arguments.member? name = some (.string text) := by
  unfold textArgument
  cases arguments.member? name with
  | none => simp
  | some v => cases v <;> simp [text?]

private theorem map_textArgument_eq_ok_iff {arguments : Json} {name : String}
    {f : String → Operation} {op : Operation} : (textArgument arguments name).map f = .ok op ↔
      ∃ text, arguments.member? name = some (.string text) ∧ f text = op := by
  simp only [← textArgument_eq_ok_iff]
  cases textArgument arguments name <;> simp [Except.map]

private theorem Operation.ofCall_eq_ok_iff {name : String} {arguments : Json} {op : Operation} :
    ofCall name arguments = .ok op ↔ op.toolName = name ∧
      ∀ input ∈ op.inputs, arguments.member? input.1 = some (.string input.2) := by
  constructor
  · intro h
    unfold ofCall at h
    -- The fifth name takes two texts, the fourth and the sixth none; the seventh is any other name.
    split at h
    case h_5 =>
      split at h
      next => cases h
      next key hkey =>
        obtain ⟨value, hvalue, rfl⟩ := map_textArgument_eq_ok_iff.1 h
        exact ⟨rfl, by simpa [inputs] using ⟨textArgument_eq_ok_iff.1 hkey, hvalue⟩⟩
    case h_7 => cases h
    case h_4 | h_6 =>
      cases h
      exact ⟨rfl, nofun⟩
    all_goals
      obtain ⟨text, htext, rfl⟩ := map_textArgument_eq_ok_iff.1 h
      exact ⟨rfl, by simpa [inputs] using htext⟩
  · rintro ⟨rfl, hfilled⟩
    cases op with
    | deleteVideo => rfl
    | quit => rfl
    | addLocalStorageItem key value =>
      simp only [inputs, List.forall_mem_cons, List.not_mem_nil, false_implies, implies_true,
        and_true] at hfilled
      have hkey := textArgument_eq_ok_iff.2 hfilled.1
      simp only [toolName, ofCall, hkey]
      exact map_textArgument_eq_ok_iff.2 ⟨value, hfilled.2, rfl⟩
    | _ => exact map_textArgument_eq_ok_iff.2 ⟨_, hfilled _ List.mem_cons_self, rfl⟩

example : Operation.ofCall "open" (.object [("url", .ofNat 7)]) =
    .error (.of "missing string argument 'url'") := by rfl

private theorem required_function (name description : String)
    (properties : List (String × String)) :
    (Tool.function name description (textParameters properties)).required =
      properties.map Prod.fst := by
  have hmember : (textParameters properties).member? "required" =
      if properties.isEmpty then none
      else some (.array (properties.map fun p => .string p.1)) := by
    rw [textParameters, Json.ofMembers, Json.ofDict, Json.member?, lookup_ofList]
    split <;> simp [Dict.lookup]
  have hrequired : (Tool.function name description (textParameters properties)).required =
      match (textParameters properties).member? "required" with
      | some (.array names) => names.filterMap text?
      | _ => [] := rfl
  rw [hrequired, hmember]
  cases properties with
  | nil => rfl
  | cons p properties => simp [List.filterMap_map, Function.comp_def]

private theorem exists_tool (op : Operation) :
    ∃ tool ∈ tools, tool.name = op.toolName ∧ tool.required = op.inputs.map Prod.fst := by
  cases op with
  | openUrl _ => exact ⟨_, List.mem_of_getElem? (i := 0) rfl, rfl, required_function _ _ _⟩
  | saveScreenshot _ => exact ⟨_, List.mem_of_getElem? (i := 1) rfl, rfl, required_function _ _ _⟩
  | saveVideo _ => exact ⟨_, List.mem_of_getElem? (i := 2) rfl, rfl, required_function _ _ _⟩
  | deleteVideo => exact ⟨_, List.mem_of_getElem? (i := 3) rfl, rfl, required_function _ _ _⟩
  | addLocalStorageItem _ _ =>
    exact ⟨_, List.mem_of_getElem? (i := 4) rfl, rfl, required_function _ _ _⟩
  | quit => exact ⟨_, List.mem_of_getElem? (i := 5) rfl, rfl, required_function _ _ _⟩

private theorem exists_operation {tool : Tool} (htool : tool ∈ tools) (given : String → String) :
    ∃ op : Operation, op.toolName = tool.name ∧
      op.inputs = tool.required.map fun property => (property, given property) := by
  simp only [tools, List.mem_cons, List.not_mem_nil, or_false] at htool
  rcases htool with rfl | rfl | rfl | rfl | rfl | rfl
  all_goals rw [required_function]
  · exact ⟨.openUrl (given "url"), rfl, rfl⟩
  · exact ⟨.saveScreenshot (given "name"), rfl, rfl⟩
  · exact ⟨.saveVideo (given "name"), rfl, rfl⟩
  · exact ⟨.deleteVideo, rfl, rfl⟩
  · exact ⟨.addLocalStorageItem (given "key") (given "value"), rfl, rfl⟩
  · exact ⟨.quit, rfl, rfl⟩

private theorem exists_serves {tool : Tool} (htool : tool ∈ tools) {arguments : Json}
    (hgiven : ∀ property ∈ tool.required, ∃ text,
      arguments.member? property = some (.string text)) :
    ∃ op : Operation, op.Serves tool arguments := by
  obtain ⟨op, hname, hinputs⟩ := exists_operation htool fun property =>
    ((arguments.member? property).bind text?).getD ""
  refine ⟨op, hname, ?_, fun input hinput => ?_⟩
  · rw [hinputs, List.map_map]
    exact (List.map_id _).symm
  · rw [hinputs] at hinput
    obtain ⟨property, hproperty, rfl⟩ := List.mem_map.1 hinput
    obtain ⟨text, htext⟩ := hgiven property hproperty
    simp [htext]

/-! ## Calls -/

/-- A call that gives an offered tool what its schema requires: its arguments are blank or JSON, it
names the tool, and each property that the tool requires is there as a string. -/
structure Meets (call : ToolCall) (tool : Tool) (arguments : Json) : Prop where
  decoded : (Text.allBlank call.arguments = true ∧ arguments = .object []) ∨
    Json.read? call.arguments = some arguments
  offered : tool ∈ tools
  named : call.name = tool.name
  given : ∀ property ∈ tool.required, ∃ text, arguments.member? property = some (.string text)

private theorem operationOf_eq_ok_iff {call : ToolCall} {op : Operation} :
    operationOf call = .ok op ↔
      ∃ tool arguments, Meets call tool arguments ∧ op.Serves tool arguments := by
  constructor
  · intro h
    unfold operationOf at h
    split at h
    next => cases h
    next arguments hdecoded =>
      obtain ⟨hname, hfilled⟩ := Operation.ofCall_eq_ok_iff.1 h
      obtain ⟨tool, htool, htoolName, hrequired⟩ := exists_tool op
      have hserves : op.Serves tool arguments := ⟨htoolName.symm, hrequired, hfilled⟩
      refine ⟨tool, arguments, ?_, hserves⟩
      exact ⟨ToolCall.arguments?_eq_some_iff.1 hdecoded, htool, hname.symm.trans htoolName.symm,
        fun _ => hserves.given⟩
  · rintro ⟨tool, arguments, hmeets, hserves⟩
    unfold operationOf
    rw [ToolCall.arguments?_eq_some_iff.2 hmeets.decoded, hmeets.named]
    exact Operation.ofCall_eq_ok_iff.2 ⟨hserves.named, hserves.filled⟩

def Operation.call (op : Operation) (id : String) : ToolCall :=
  .function id op.toolName (ofTexts (Dict.ofList op.inputs)).compact

private theorem pairwise_inputs (op : Operation) : op.inputs.Pairwise fun a b => a.1 < b.1 := by
  cases op with
  | deleteVideo => exact .nil
  | quit => exact .nil
  | addLocalStorageItem key value =>
    have horder : "key" < "value" := by decide
    exact List.pairwise_pair.2 horder
  | _ => exact List.pairwise_singleton _ _

/-- Every operation can be asked for. -/
theorem meets_call (op : Operation) (id : String) :
    ∃ tool arguments, Meets (op.call id) tool arguments ∧ op.Serves tool arguments := by
  obtain ⟨tool, htool, hname, hrequired⟩ := exists_tool op
  have hfilled : ∀ input ∈ op.inputs,
      (ofTexts (Dict.ofList op.inputs)).member? input.1 = some (.string input.2) := by
    intro input hinput
    refine Dict.find?_eq_some_iff (d := (Dict.ofList op.inputs).mapValues Json.string).2 ?_
    rw [← Dict.entries_ofList (pairwise_inputs op)] at hinput
    exact List.mem_map_of_mem hinput
  have hserves : op.Serves tool (ofTexts (Dict.ofList op.inputs)) :=
    ⟨hname.symm, hrequired, hfilled⟩
  exact ⟨tool, _, ⟨.inr (read?_compact_ofTexts _), htool, hname.symm, fun _ => hserves.given⟩,
    hserves⟩

/-! ## Runs -/

end BrowserActions

variable {σ : Type}

open BrowserActions

def Browser.noted (b : Browser (StateM σ)) : Browser (StateM (Log Operation σ)) where
  openUrl url := Log.noting (fun _ => .openUrl url) (b.openUrl url)
  saveScreenshot name := Log.noting (fun _ => .saveScreenshot name) (b.saveScreenshot name)
  saveVideo name := Log.noting (fun _ => .saveVideo name) (b.saveVideo name)
  deleteVideo := Log.noting (fun _ => .deleteVideo) b.deleteVideo
  addLocalStorageItem key value :=
    Log.noting (fun _ => .addLocalStorageItem key value) (b.addLocalStorageItem key value)
  quit := Log.noting (fun _ => .quit) b.quit

namespace BrowserActions

variable (a : BrowserActions (StateM (Log Operation σ))) (b : Browser (StateM σ))

def withBrowser : BrowserActions (StateM (Log Operation σ)) := { a with browser := b.noted }

/-- A run in which a browser does one thing and nothing else happens, and that fails as the browser
does. -/
structure Performs (op : Operation) (x : StateM (Log Operation σ) (Except Trouble String))
    (s : Log Operation σ) : Prop where
  after : (x.run s).2 = ⟨s.entries ++ [op], ((perform b op).run s.world).2⟩
  fails_iff : ∀ t, (x.run s).1 = .error t ↔ ((perform b op).run s.world).1 = .error t

/-- A run that fails, and in which nothing happens. -/
structure Refuses (x : StateM (Log Operation σ) (Except Trouble String)) (s : Log Operation σ) :
    Prop where
  after : (x.run s).2 = s
  fails : ∃ t, (x.run s).1 = .error t

private theorem run_perform_noted (op : Operation) (s : Log Operation σ) :
    (perform b.noted op).run s =
      (((perform b op).run s.world).1, ⟨s.entries ++ [op], ((perform b op).run s.world).2⟩) := by
  cases op <;> rfl

private theorem run_dispatch_of_operationOf {call : ToolCall} {op : Operation}
    (h : operationOf call = .ok op) (s : Log Operation σ) :
    ((a.withBrowser b).dispatch call).run s =
      (((perform b op).run s.world).1.map fun _ => (Json.ofMembers
        [("action", .string call.name), ("details", .string op.details)]).compact,
        ⟨s.entries ++ [op], ((perform b op).run s.world).2⟩) := by
  have hperform : (perform (a.withBrowser b).browser op).run s =
      (((perform b op).run s.world).1, ⟨s.entries ++ [op], ((perform b op).run s.world).2⟩) :=
    run_perform_noted b op s
  simp only [dispatch, h, run_bind_of hperform]
  cases ((perform b op).run s.world).1 <;> rfl

private theorem run_dispatch_of_not_meets {call : ToolCall}
    (h : ¬ ∃ tool arguments, Meets call tool arguments) (s : Log Operation σ) :
    ∃ t, ((a.withBrowser b).dispatch call).run s = (.error t, s) := by
  cases hop : operationOf call with
  | error t =>
    refine ⟨t, ?_⟩
    simp only [dispatch, hop]
    rfl
  | ok op =>
    obtain ⟨tool, arguments, hmeets, -⟩ := operationOf_eq_ok_iff.1 hop
    exact absurd ⟨tool, arguments, hmeets⟩ h

/-- A call is carried out just when it gives an offered tool what the schema of the tool requires.
Then it is carried out as the one operation of that tool with the required texts, once, and it fails
when the browser does. Any other call fails, and the browser is not touched. -/
theorem dispatch_performs_or_refuses (call : ToolCall) (s : Log Operation σ) :
    ((((a.withBrowser b).dispatch call).run s).2.entries ≠ s.entries ↔
        ∃ tool arguments, Meets call tool arguments) ∧
      ((∃ tool arguments op, Meets call tool arguments ∧
          (∀ other : Operation, other.Serves tool arguments ↔ other = op) ∧
          Performs b op ((a.withBrowser b).dispatch call) s) ∨
        Refuses ((a.withBrowser b).dispatch call) s) := by
  by_cases h : ∃ tool arguments, Meets call tool arguments
  · obtain ⟨tool, arguments, hmeets⟩ := h
    obtain ⟨op, hserves⟩ := exists_serves hmeets.offered hmeets.given
    have hop := operationOf_eq_ok_iff.2 ⟨tool, arguments, hmeets, hserves⟩
    have hrun := run_dispatch_of_operationOf a b hop s
    constructor
    · rw [hrun]
      exact iff_of_true (by simp) ⟨tool, arguments, hmeets⟩
    · refine .inl ⟨tool, arguments, op, hmeets, fun other => ⟨fun hother => ?_, ?_⟩, ?_⟩
      · have hsame := operationOf_eq_ok_iff.2 ⟨tool, arguments, hmeets, hother⟩
        exact Except.ok.inj (hsame.symm.trans hop)
      · rintro rfl
        exact hserves
      · refine ⟨by rw [hrun], fun t => ?_⟩
        rw [hrun]
        cases ((perform b op).run s.world).1 <;> simp [Except.map]
  · obtain ⟨t, hrun⟩ := run_dispatch_of_not_meets a b h s
    refine ⟨?_, .inr ⟨?_, t, ?_⟩⟩
    · rw [hrun]
      exact iff_of_false (by simp) h
    · rw [hrun]
    · rw [hrun]

end BrowserActions
end StepScript
