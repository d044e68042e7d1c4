import StepScript.Script.Basic

/-!
The text of definitions. A text is read line by line; lines are trimmed and blank ones skipped. A
marker line opens a step, a behavior or a hook, and every other line is an action of the one that
is open: a name, a parenthesised argument that may be left out, a colon and a text. A concept's
text names the concept once, at any place. The first line at fault decides the error.
-/

set_option autoImplicit false
set_option relaxedAutoImplicit false

namespace StepScript

namespace Script

/-- The lines of a text, trimmed, without the blank ones. -/
def lines (source : String) : List String :=
  ((Text.splitAtEach '\n' source.toList).map fun cs => String.ofList (Text.trimChars cs)).filter
    fun line => line != ""

/-- What follows a marker at the start of a line, trimmed. -/
def rest? (marker line : String) : Option String :=
  (Text.afterMark marker.toList line.toList).map fun cs => String.ofList (Text.trimChars cs)

def fault {α : Type} (line : String) (f : Fault) : Except ScriptError α :=
  .error (.malformed line f)

end Script

namespace Action

open Script

/-- Splits an action's head into a name and the argument in the parentheses at its end. A head that
starts with its last opening parenthesis is all name. -/
def splitHead (head : List Char) : List Char × Option (List Char) :=
  match head.getLast? with
  | some ')' =>
    match Text.cutAtLast '(' head with
    | some (c :: name, inside) =>
      (Text.trimChars (c :: name), some (Text.trimChars inside.dropLast))
    | _ => (head, none)
  | _ => (head, none)

def parse (line : String) : Except ScriptError Action :=
  let trimmed := Text.trimChars line.toList
  let whole := String.ofList trimmed
  match Text.cutAtFirst [':'] trimmed with
  | none => fault whole .missingDelimiter
  | some (before, after) =>
    let head := Text.trimChars before
    let text := Text.trimChars after
    if head.isEmpty then fault whole .emptyActionName
    else if text.isEmpty then fault whole .emptyActionText
    else
      let (name, arg) := splitHead head
      .ok ⟨String.ofList name, String.ofList text, arg.map String.ofList⟩

end Action

namespace Script

/-- A marker's line and the actions under it. -/
structure Section (α : Type) where
  head : α
  actions : List Action

/-- What a marker line says. -/
inductive Mark (α : Type)
  | names (name : String)
  | opens (head : α)

/-- What has been read so far; the section that is open stands first. -/
structure Draft (α : Type) where
  title : Option String
  sections : List (Section α)

/-- The marker lines of a kind of definition, and the fault of an action before any section. -/
structure Grammar (α : Type) where
  mark : String → Option (Except ScriptError (Mark α))
  orphan : Fault

def Draft.add {α : Type} (g : Grammar α) (draft : Draft α) (line : String) :
    Except ScriptError (Draft α) :=
  match g.mark line with
  | some (.ok (.names name)) =>
    if draft.title.isSome then fault line .secondConcept
    else .ok { draft with title := some name }
  | some (.ok (.opens head)) => .ok { draft with sections := ⟨head, []⟩ :: draft.sections }
  | some (.error e) => .error e
  | none =>
    match draft.sections with
    | [] => fault line g.orphan
    | s :: earlier =>
      match Action.parse line with
      | .ok action =>
        .ok { draft with sections := { s with actions := s.actions ++ [action] } :: earlier }
      | .error e => .error e

def Draft.addAll {α : Type} (g : Grammar α) : Draft α → List String → Except ScriptError (Draft α)
  | draft, [] => .ok draft
  | draft, line :: rest =>
    match draft.add g line with
    | .ok draft => addAll g draft rest
    | .error e => .error e

def Grammar.read {α : Type} (g : Grammar α) (source : String) :
    Except ScriptError (Option String × List (Section α)) :=
  match Draft.addAll g ⟨none, []⟩ (lines source) with
  | .ok draft => .ok (draft.title, draft.sections.reverse)
  | .error e => .error e

def pattern (line text : String) (empty : Fault) : Except ScriptError (Mark String) :=
  if text == "" then fault line empty else .ok (.opens text)

def title (line name : String) : Except ScriptError (Mark String) :=
  if name == "" then fault line .emptyConceptName
  else if name.toList.contains ':' then fault line .colonInConceptName
  else .ok (.names name)

def stepMarker : String := "Step:"

def conceptMarker : String := "Concept:"

def behaviorMarker : String := "Behavior:"

def hookMarker : Phase → String
  | .before => "Before:"
  | .after => "After:"

def stepGrammar : Grammar String where
  mark line := (rest? stepMarker line).map fun text => pattern line text .emptyStepText
  orphan := .actionBeforeStep

/-- A concept is named by its marker, and its behaviors are opened by theirs and their pattern. -/
def conceptGrammar : Grammar String where
  mark line :=
    match rest? conceptMarker line with
    | some name => some (title line name)
    | none => (rest? behaviorMarker line).map fun text => pattern line text .emptyBehaviorText
  orphan := .actionBeforeBehavior

/-- The phase, the tags as written and the tag expression of a hook. -/
structure HookHead where
  phase : Phase
  tags : String
  selector : Selector

def hookHead (phase : Phase) (tags : String) : Except ScriptError (Mark HookHead) :=
  match Selector.parse tags with
  | .ok selector => .ok (.opens ⟨phase, tags, selector⟩)
  | .error e => .error e

/-- Hooks are opened by the marker of their phase and their tag expression. -/
def hookGrammar : Grammar HookHead where
  mark line :=
    match rest? (hookMarker .before) line with
    | some tags => some (hookHead .before tags)
    | none => (rest? (hookMarker .after) line).map (hookHead .after)
  orphan := .actionBeforeHook

end Script

open Script

def Step.parseAll (source : String) : Except ScriptError (List Step) :=
  match stepGrammar.read source with
  | .ok (_, sections) => .ok (sections.map fun s => ⟨s.head, s.actions⟩)
  | .error e => .error e

def Concept.parse (source : String) : Except ScriptError Concept :=
  match conceptGrammar.read source with
  | .ok (some name, sections) => .ok ⟨name, sections.map fun s => ⟨s.head, s.actions⟩⟩
  | .ok (none, _) => fault "" .missingConcept
  | .error e => .error e

def Hook.parseAll (source : String) : Except ScriptError (List Hook) :=
  match hookGrammar.read source with
  | .ok (_, sections) =>
    .ok (sections.map fun s => ⟨s.head.phase, s.head.tags, s.head.selector, s.actions⟩)
  | .error e => .error e

def Concept.parseEach : List String → Except ScriptError (List Concept)
  | [] => .ok []
  | source :: rest =>
    match Concept.parse source with
    | .error e => .error e
    | .ok c => (parseEach rest).map (c :: ·)

/-- The definitions of a text with steps, of texts with a concept each, and of a text with hooks. -/
def Script.parse (steps : String) (concepts : List String) (hooks : String) :
    Except ScriptError Script := do
  let steps ← Step.parseAll steps
  let concepts ← Concept.parseEach concepts
  let hooks ← Hook.parseAll hooks
  return ⟨steps, concepts, hooks⟩

end StepScript
