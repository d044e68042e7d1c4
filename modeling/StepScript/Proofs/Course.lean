import StepScript.Proofs.Recording

/-!
The course of a run. A run takes up one action after the other, and those of a concept before it
goes on behind the concept. What becomes of an action when its turn comes depends on its handler, or
on the matcher if it has none. A course lists the turns of a run in their order and says where it
stops; every run has a course, and all that it asks of its handlers and its matcher is what the
turns of its course ask.
-/

set_option autoImplicit false
set_option relaxedAutoImplicit false

namespace StepScript

variable {σ : Type}

theorem Concept.exists_behavior {concept : Concept} {pattern : String}
    (h : pattern ∈ concept.patterns) : ∃ behavior, concept.behavior? pattern = some behavior := by
  obtain ⟨behavior, hbehavior, hpattern⟩ := List.mem_map.1 h
  have hsome : (concept.behavior? pattern).isSome := by
    unfold Concept.behavior?
    rw [List.find?_isSome]
    exact ⟨behavior, hbehavior, by simp [hpattern]⟩
  exact Option.isSome_iff_exists.1 hsome

namespace Interpreter

variable {m : Type → Type}

/-- The patterns that a text is matched with when an action has this name and no handler. -/
def patternsFor (i : Interpreter m) (name : String) : List String :=
  match i.script.concepts.find? fun concept => concept.name == name with
  | none => []
  | some concept => concept.behaviors.map Behavior.pattern

/-- The behavior that such an action stands for when a pattern is chosen. -/
def behaviorFor (i : Interpreter m) (name pattern : String) : Option Behavior :=
  (i.script.concepts.find? fun concept => concept.name == name).bind fun concept =>
    concept.behaviors.find? fun behavior => behavior.pattern == pattern

private theorem patternsFor_eq {i : Interpreter m} {name : String} {concept : Concept}
    (h : i.script.concept? name = some concept) : i.patternsFor name = concept.patterns := by
  unfold Script.concept? at h
  rw [patternsFor, h]
  rfl

private theorem behaviorFor_eq {i : Interpreter m} {name : String} {concept : Concept}
    (h : i.script.concept? name = some concept) (pattern : String) :
    i.behaviorFor name pattern = concept.behavior? pattern := by
  unfold Script.concept? at h
  rw [behaviorFor, h]
  rfl

private theorem exists_concept {i : Interpreter m} {name : String} (h : i.patternsFor name ≠ []) :
    ∃ concept, i.script.concept? name = some concept := by
  unfold Script.concept?
  cases hconcept : i.script.concepts.find? fun concept => concept.name == name with
  | none => simp [patternsFor, hconcept] at h
  | some concept => exact ⟨concept, rfl⟩

end Interpreter

/-! ## Endings -/

namespace Ending

/-- What a handler reports as its results, when it reports success. -/
def gain? : Ending → Option Bindings
  | .finished ⟨true, result, _⟩ => result
  | _ => none

/-- In which words a handler fails: those that it reports, those of its error from the outermost to
the innermost, or those of its crash. -/
def complaint? : Ending → Option String
  | .finished ⟨true, _, _⟩ => none
  | .finished ⟨false, _, error⟩ => some (error.getD "unknown error")
  | .troubled t => some (": ".intercalate t.causes)
  | .crashed (some text) => some ("handler panicked: " ++ text)
  | .crashed none => some "handler panicked"

variable {ending : Ending}

private theorem outcome_of_content (h : ending.complaint? = none) :
    ending.outcome.success = true ∧ ending.outcome.result = ending.gain? := by
  rcases ending with ⟨_ | _, result, error⟩ | t | text
  · cases h
  · exact ⟨rfl, rfl⟩
  · cases h
  · cases text <;> cases h

private theorem outcome_of_complaint {words : String} (h : ending.complaint? = some words) :
    ending.outcome.success = false ∧ ending.outcome.errorText = words := by
  rcases ending with ⟨_ | _, result, error⟩ | t | text
  · exact ⟨rfl, Option.some.inj h⟩
  · cases h
  · exact ⟨rfl, Option.some.inj h⟩
  · cases text <;> exact ⟨rfl, Option.some.inj h⟩

theorem gain?_of_complaint {words : String} (h : ending.complaint? = some words) :
    ending.gain? = none := by
  rcases ending with ⟨_ | _, result, error⟩ | t | text
  · rfl
  · cases h
  · rfl
  · rfl

end Ending

/-! ## Turns -/

/-- What becomes of an action when its turn comes: its handler is called, or it has none and the
matcher is asked, unless there is no pattern that its text could fit. -/
inductive Fate
  | called (ending : Ending)
  | unheard
  | asked (patterns : List String) (answer : Except Failure (Option Match))

structure Turn where
  /-- How many concepts are open around the action. -/
  depth : Nat
  args : Bindings
  /-- What has been gathered by then. -/
  gathered : Bindings
  action : Action
  fate : Fate

namespace Turn

def text (t : Turn) : String := Template.fill t.args t.gathered t.action.text

def arg (t : Turn) : Option String := t.action.arg.map (Template.fill t.args t.gathered)

def event? (t : Turn) : Option Event :=
  match t.fate with
  | .called ending => some (.called t.action.name t.text t.arg ending)
  | .unheard => none
  | .asked patterns answer => some (.asked patterns t.text answer)

def events (turns : List Turn) : List Event := turns.filterMap event?

theorem events_nil : events [] = [] := rfl

theorem events_cons (t : Turn) (turns : List Turn) :
    events (t :: turns) = t.event?.toList ++ events turns := by
  cases hevent : t.event? with
  | none => simp [events, hevent]
  | some event => simp [events, hevent]

theorem events_single (t : Turn) : events [t] = t.event?.toList := by
  rw [events_cons, events_nil, List.append_nil]

theorem events_append (turns turns' : List Turn) :
    events (turns ++ turns') = events turns ++ events turns' := List.filterMap_append

/-- The match that opens a concept. It is one of the patterns. -/
def found? (t : Turn) : Option Match :=
  match t.fate with
  | .asked patterns (.ok (some found)) => if found.pattern ∈ patterns then some found else none
  | _ => none

def unknown (t : Turn) : Failure := .action (.unknown t.action.name t.text)

/-- Why a turn fails: in the handler's words, in the matcher's, or because nothing is chosen. -/
def failure? (t : Turn) : Option Failure :=
  match t.fate with
  | .called ending => ending.complaint?.map fun words => .action (.failed t.action.name words)
  | .unheard => some t.unknown
  | .asked _ (.error f) => some f
  | .asked _ (.ok none) => some t.unknown
  | .asked patterns (.ok (some found)) =>
    if found.pattern ∈ patterns then none else some t.unknown

/-- A turn comes about: the handler, or else the matcher, answers as the turn says. -/
inductive Occurs (i : Interpreter (StateM σ)) (t : Turn) : σ → σ → Prop
  | called {handler : Handler (StateM σ)} {ending : Ending} {world world' : σ}
      (hhandler : i.handlers.find? t.action.name = some handler)
      (hrun : (handler t.text t.arg).run world = (ending, world'))
      (hfate : t.fate = .called ending) : Occurs i t world world'
  | unheard {world : σ} (hhandler : i.handlers.find? t.action.name = none)
      (hpatterns : i.patternsFor t.action.name = []) (hfate : t.fate = .unheard) :
      Occurs i t world world
  | asked {answer : Except Failure (Option Match)} {world world' : σ}
      (hhandler : i.handlers.find? t.action.name = none)
      (hpatterns : i.patternsFor t.action.name ≠ [])
      (hrun : (i.matcher.find (i.patternsFor t.action.name) t.text).run world = (answer, world'))
      (hfate : t.fate = .asked (i.patternsFor t.action.name) answer) : Occurs i t world world'

end Turn

/-! ## Courses -/

inductive Stop
  | completed
  | failed (f : Failure)
  /-- A concept was to be opened inside as many others as the interpreter bears with. -/
  | cutOff

def Stop.result : Stop → Except Failure Unit
  | .completed => .ok ()
  | .failed f => .error f
  | .cutOff => .error .unfinished

structure Moment (σ : Type) where
  gathered : Bindings
  world : σ

/-- The course of a run of some actions inside some concepts, from one moment to another. -/
inductive Course (i : Interpreter (StateM σ)) :
    Nat → Bindings → List Action → Moment σ → List Turn → Stop → Moment σ → Prop
  | done {depth : Nat} {args : Bindings} {s : Moment σ} : Course i depth args [] s [] .completed s
  | next {depth : Nat} {args : Bindings} {a : Action} {rest : List Action} {s s' s'' : Moment σ}
      {turns turns' : List Turn} {stop : Stop} :
      Course i depth args [a] s turns .completed s' → Course i depth args rest s' turns' stop s'' →
      Course i depth args (a :: rest) s (turns ++ turns') stop s''
  | halted {depth : Nat} {args : Bindings} {a : Action} {rest : List Action} {s s' : Moment σ}
      {turns : List Turn} {stop : Stop} :
      Course i depth args [a] s turns stop s' → stop ≠ .completed →
      Course i depth args (a :: rest) s turns stop s'
  | called {t : Turn} {world world' : σ} {ending : Ending} :
      t.Occurs i world world' → t.fate = .called ending → t.failure? = none →
      Course i t.depth t.args [t.action] ⟨t.gathered, world⟩ [t] .completed
        ⟨t.gathered.merge (ending.gain?.getD Dict.empty), world'⟩
  | failed {t : Turn} {world world' : σ} {f : Failure} :
      t.Occurs i world world' → t.failure? = some f →
      Course i t.depth t.args [t.action] ⟨t.gathered, world⟩ [t] (.failed f) ⟨t.gathered, world'⟩
  | opened {t : Turn} {world world' : σ} {found : Match} {behavior : Behavior} {turns : List Turn}
      {stop : Stop} {s : Moment σ} :
      t.Occurs i world world' → t.found? = some found →
      i.behaviorFor t.action.name found.pattern = some behavior → t.depth < i.nesting →
      Course i (t.depth + 1) found.captures behavior.actions ⟨t.gathered, world'⟩ turns stop s →
      Course i t.depth t.args [t.action] ⟨t.gathered, world⟩ (t :: turns) stop s
  | cutOff {t : Turn} {world world' : σ} {found : Match} :
      t.Occurs i world world' → t.found? = some found → i.nesting ≤ t.depth →
      Course i t.depth t.args [t.action] ⟨t.gathered, world⟩ [t] .cutOff ⟨t.gathered, world'⟩

namespace Interpreter

variable {i : Interpreter (StateM σ)}

private theorem run_inSequence_of_ok {α : Type} {one : α → Bindings → StateM σ RunResult} {a : α}
    {gathered gathered' : Bindings} {world world' : σ}
    (h : (one a gathered).run world = ((.ok (), gathered'), world')) (rest : List α) :
    (inSequence one (a :: rest) gathered).run world = (inSequence one rest gathered').run world' :=
  run_bind_of h

private theorem run_inSequence_of_error {α : Type} {one : α → Bindings → StateM σ RunResult} {a : α}
    {gathered gathered' : Bindings} {world world' : σ} {f : Failure}
    (h : (one a gathered).run world = ((.error f, gathered'), world')) (rest : List α) :
    (inSequence one (a :: rest) gathered).run world = ((.error f, gathered'), world') :=
  run_bind_of h

private theorem run_inSequence_single {α : Type} (one : α → Bindings → StateM σ RunResult) (a : α)
    (gathered : Bindings) (world : σ) :
    (inSequence one [a] gathered).run world = (one a gathered).run world := by
  rcases hrun : (one a gathered).run world with ⟨⟨result, gathered'⟩, world'⟩
  cases result with
  | ok _ => exact run_inSequence_of_ok hrun []
  | error f => exact run_inSequence_of_error hrun []

def chosen (patterns : List String) : Except Failure (Option Match) → Except Failure (Option Match)
  | .ok (some found) => .ok (if found.pattern ∈ patterns then some found else none)
  | answer => answer

theorem run_choose_nil (text : String) (world : σ) :
    (i.choose [] text).run world = (.ok none, world) := rfl

theorem run_choose {patterns : List String} (hpatterns : patterns ≠ []) {text : String}
    {world world' : σ} {answer : Except Failure (Option Match)}
    (h : (i.matcher.find patterns text).run world = (answer, world')) :
    (i.choose patterns text).run world = (chosen patterns answer, world') := by
  have hsome : ¬ patterns.isEmpty = true := by simpa using hpatterns
  unfold choose
  rw [if_neg hsome, run_bind_of h]
  rcases answer with f | _ | found
  · rfl
  · rfl
  · simp only [chosen, List.contains_eq_mem, decide_eq_true_eq]
    rfl

/-! ## Runs follow their courses -/

private theorem contains_of_find? {name : String} {handler : Handler (StateM σ)}
    (h : i.handlers.find? name = some handler) : i.handlers.contains name = true := by
  simp [Dict.contains, h]

theorem not_contains_of_find? {name : String} (h : i.handlers.find? name = none) :
    i.handlers.contains name = false := by
  simp [Dict.contains, h]

private theorem run_runAction_called {room : Nat} {args gathered : Bindings} {action : Action}
    {handler : Handler (StateM σ)} {world world' : σ} {ending : Ending}
    (hhandler : i.handlers.find? action.name = some handler)
    (hrun : (handler (Template.fill args gathered action.text)
      (action.arg.map (Template.fill args gathered))).run world = (ending, world')) :
    (i.runAction room args action gathered).run world =
      (match ending.complaint? with
      | none => (.ok (), gathered.merge (ending.gain?.getD Dict.empty))
      | some words => (.error (.action (.failed action.name words)), gathered), world') := by
  have hcall : (i.handlers.call action.name (Template.fill args gathered action.text)
      (action.arg.map (Template.fill args gathered))).run world = (ending.outcome, world') := by
    unfold Handlers.call
    rw [hhandler]
    exact run_bind_of hrun
  unfold runAction
  simp only [contains_of_find? hhandler, if_true]
  unfold runPrimitive
  rw [run_bind_of hcall]
  cases hcomplaint : ending.complaint? with
  | none =>
    obtain ⟨hsuccess, hresult⟩ := Ending.outcome_of_content hcomplaint
    rw [if_pos hsuccess, hresult]
    rfl
  | some words =>
    obtain ⟨hfailed, hwords⟩ := Ending.outcome_of_complaint hcomplaint
    rw [hfailed, hwords]
    rfl

private def goOn (i : Interpreter (StateM σ)) (room : Nat) (args gathered : Bindings)
    (action : Action) (concept : Concept) : Except Failure (Option Match) → StateM σ RunResult
  | .error f => return (.error f, gathered)
  | .ok none =>
    let text := Template.fill args gathered action.text
    return (.error (.action (.unknown action.name text)), gathered)
  | .ok (some found) =>
    match concept.behavior? found.pattern with
    | none =>
      let text := Template.fill args gathered action.text
      return (.error (.action (.unknown action.name text)), gathered)
    | some behavior =>
      match room with
      | 0 => return (.error .unfinished, gathered)
      | room + 1 => inSequence (i.runAction room found.captures) behavior.actions gathered

private theorem run_runAction_chosen {room : Nat} {args gathered : Bindings} {action : Action}
    {concept : Concept} {world world' : σ} {choice : Except Failure (Option Match)}
    (hhandler : i.handlers.find? action.name = none)
    (hconcept : i.script.concept? action.name = some concept)
    (hchoose : (i.choose concept.patterns (Template.fill args gathered action.text)).run world =
      (choice, world')) :
    (i.runAction room args action gathered).run world =
      (i.goOn room args gathered action concept choice).run world' := by
  unfold runAction
  simp only [not_contains_of_find? hhandler, Bool.false_eq_true, if_false, hconcept]
  unfold chooseBehavior
  rw [bind_assoc, run_bind_of hchoose]
  rcases choice with f | _ | found
  · rfl
  · rfl
  · cases hbehavior : concept.behavior? found.pattern with
    | none => simp [goOn, hbehavior]
    | some behavior => cases room <;> simp [goOn, hbehavior]

end Interpreter

namespace Turn

variable {i : Interpreter (StateM σ)} {t : Turn} {world world' : σ} {room : Nat}

theorem fate_of_found {found : Match} (h : t.found? = some found) :
    ∃ patterns, t.fate = .asked patterns (.ok (some found)) ∧ found.pattern ∈ patterns := by
  rcases hfate : t.fate with ending | _ | ⟨patterns, e | _ | other⟩
  · simp [found?, hfate] at h
  · simp [found?, hfate] at h
  · simp [found?, hfate] at h
  · simp [found?, hfate] at h
  · obtain ⟨hmem, rfl⟩ : other.pattern ∈ patterns ∧ other = found := by
      simpa [found?, hfate] using h
    exact ⟨patterns, rfl, hmem⟩

theorem Occurs.of_found {found : Match} (h : t.Occurs i world world')
    (hfound : t.found? = some found) :
    i.handlers.find? t.action.name = none ∧
      (i.matcher.find (i.patternsFor t.action.name) t.text).run world =
        (.ok (some found), world') ∧
      found.pattern ∈ i.patternsFor t.action.name := by
  obtain ⟨patterns, hasked, hmem⟩ := fate_of_found hfound
  cases h with
  | called _ _ hfate => exact nomatch hasked.symm.trans hfate
  | unheard _ _ hfate => exact nomatch hasked.symm.trans hfate
  | asked hhandler _ hrun hfate =>
    obtain ⟨rfl, rfl⟩ := Fate.asked.inj (hasked.symm.trans hfate)
    exact ⟨hhandler, hrun, hmem⟩

private theorem run_runAction_asked {answer : Except Failure (Option Match)} (room : Nat)
    (hhandler : i.handlers.find? t.action.name = none)
    (hpatterns : i.patternsFor t.action.name ≠ [])
    (hrun : (i.matcher.find (i.patternsFor t.action.name) t.text).run world = (answer, world')) :
    ∃ concept, i.script.concept? t.action.name = some concept ∧
      i.patternsFor t.action.name = concept.patterns ∧
      (i.runAction room t.args t.action t.gathered).run world =
        (i.goOn room t.args t.gathered t.action concept
          (Interpreter.chosen concept.patterns answer)).run world' := by
  obtain ⟨concept, hconcept⟩ := Interpreter.exists_concept hpatterns
  have heq := Interpreter.patternsFor_eq hconcept
  have hchoose : (i.choose concept.patterns t.text).run world =
      (Interpreter.chosen concept.patterns answer, world') := by
    rw [← heq]
    exact Interpreter.run_choose hpatterns hrun
  exact ⟨concept, hconcept, heq, Interpreter.run_runAction_chosen hhandler hconcept hchoose⟩

private theorem Occurs.run_of_called {ending : Ending} (h : t.Occurs i world world')
    (hfate : t.fate = .called ending) (hok : t.failure? = none) :
    (i.runAction room t.args t.action t.gathered).run world =
      ((.ok (), t.gathered.merge (ending.gain?.getD Dict.empty)), world') := by
  have hcontent : ending.complaint? = none := by simpa [failure?, hfate] using hok
  cases h with
  | called hhandler hrun hcalled =>
    obtain rfl := Fate.called.inj (hfate.symm.trans hcalled)
    rw [Interpreter.run_runAction_called hhandler hrun, hcontent]
  | unheard _ _ hunheard => exact nomatch hfate.symm.trans hunheard
  | asked _ _ _ hasked => exact nomatch hfate.symm.trans hasked

private theorem Occurs.run_of_failure {f : Failure} (h : t.Occurs i world world')
    (hfailure : t.failure? = some f) :
    (i.runAction room t.args t.action t.gathered).run world =
      ((.error f, t.gathered), world') := by
  cases h with
  | @called _ ending _ _ hhandler hrun hfate =>
    rw [Interpreter.run_runAction_called hhandler hrun]
    cases hcomplaint : ending.complaint? with
    | none => simp [failure?, hfate, hcomplaint] at hfailure
    | some words =>
      obtain rfl : _ = f := by simpa [failure?, hfate, hcomplaint] using hfailure
      rfl
  | unheard hhandler hpatterns hfate =>
    obtain rfl : t.unknown = f := by simpa [failure?, hfate] using hfailure
    cases hconcept : i.script.concept? t.action.name with
    | none =>
      unfold Interpreter.runAction
      simp only [Interpreter.not_contains_of_find? hhandler, Bool.false_eq_true, if_false, hconcept]
      rfl
    | some concept =>
      have hnil : concept.patterns = [] := by
        rw [← Interpreter.patternsFor_eq hconcept]
        exact hpatterns
      have hchoose : (i.choose concept.patterns t.text).run world = (.ok none, world) := by
        rw [hnil]
        exact Interpreter.run_choose_nil t.text world
      exact Interpreter.run_runAction_chosen hhandler hconcept hchoose
  | @asked answer _ _ hhandler hpatterns hrun hfate =>
    obtain ⟨concept, _, heq, hrun'⟩ := run_runAction_asked room hhandler hpatterns hrun
    rw [hrun']
    rcases answer with e | _ | found
    · obtain rfl : e = f := by simpa [failure?, hfate] using hfailure
      rfl
    · obtain rfl : t.unknown = f := by simpa [failure?, hfate] using hfailure
      rfl
    · have hnot : found.pattern ∉ concept.patterns := by
        intro hmem
        simp [failure?, hfate, heq, hmem] at hfailure
      obtain rfl : t.unknown = f := by simpa [failure?, hfate, heq, hnot] using hfailure
      simp only [Interpreter.chosen, if_neg hnot, Interpreter.goOn]
      rfl

private theorem Occurs.run_of_found {found : Match} {behavior : Behavior}
    (h : t.Occurs i world world') (hfound : t.found? = some found)
    (hbehavior : i.behaviorFor t.action.name found.pattern = some behavior) :
    (i.runAction room t.args t.action t.gathered).run world =
      (match room with
      | 0 => pure (.error .unfinished, t.gathered)
      | room + 1 =>
        Interpreter.inSequence (i.runAction room found.captures) behavior.actions t.gathered :
        StateM σ RunResult).run world' := by
  obtain ⟨hhandler, hrun, hmem⟩ := h.of_found hfound
  obtain ⟨concept, hconcept, heq, hrun'⟩ :=
    run_runAction_asked room hhandler (List.ne_nil_of_mem hmem) hrun
  have hfind : concept.behavior? found.pattern = some behavior := by
    rwa [Interpreter.behaviorFor_eq hconcept] at hbehavior
  rw [hrun']
  simp only [Interpreter.chosen, if_pos (heq ▸ hmem), Interpreter.goOn, hfind]

theorem Occurs.exists_behavior {found : Match} (h : t.Occurs i world world')
    (hfound : t.found? = some found) :
    ∃ behavior, i.behaviorFor t.action.name found.pattern = some behavior := by
  obtain ⟨_, _, hmem⟩ := h.of_found hfound
  obtain ⟨concept, hconcept⟩ := Interpreter.exists_concept (List.ne_nil_of_mem hmem)
  rw [Interpreter.patternsFor_eq hconcept] at hmem
  obtain ⟨first, hfirst⟩ := Concept.exists_behavior hmem
  exact ⟨first, (Interpreter.behaviorFor_eq hconcept _).trans hfirst⟩

private theorem exists_occurs (i : Interpreter (StateM σ)) (depth : Nat) (args gathered : Bindings)
    (action : Action) (world : σ) :
    ∃ fate world', Occurs i ⟨depth, args, gathered, action, fate⟩ world world' := by
  let text := Template.fill args gathered action.text
  cases hhandler : i.handlers.find? action.name with
  | some handler =>
    let ending := ((handler text (action.arg.map (Template.fill args gathered))).run world).1
    exact ⟨.called ending, _, .called hhandler rfl rfl⟩
  | none =>
    by_cases hpatterns : i.patternsFor action.name = []
    · exact ⟨.unheard, _, .unheard hhandler hpatterns rfl⟩
    · let answer := ((i.matcher.find (i.patternsFor action.name) text).run world).1
      exact ⟨.asked (i.patternsFor action.name) answer, _, .asked hhandler hpatterns rfl rfl⟩

private theorem called_or_found (h : t.failure? = none) :
    (∃ ending, t.fate = .called ending) ∨ ∃ found, t.found? = some found := by
  rcases hfate : t.fate with ending | _ | ⟨patterns, e | _ | found⟩
  · exact .inl ⟨ending, rfl⟩
  · simp [failure?, hfate] at h
  · simp [failure?, hfate] at h
  · simp [failure?, hfate] at h
  · have hmem : found.pattern ∈ patterns := by simpa [failure?, hfate] using h
    exact .inr ⟨found, by simp [found?, hfate, hmem]⟩

private theorem Occurs.recorded (h : t.Occurs i world world') (events : List Event) :
    t.Occurs i.recorded ⟨events, world⟩ ⟨events ++ t.event?.toList, world'⟩ := by
  cases h with
  | @called handler ending _ _ hhandler hrun hfate =>
    have hevent : t.event? = some (.called t.action.name t.text t.arg ending) := by
      simp [event?, hfate]
    have hrecorded := (Handlers.find?_recorded i.handlers t.action.name).trans
      (congrArg _ hhandler)
    rw [hevent]
    exact .called hrecorded (Recorded.run_taking _ hrun events) hfate
  | unheard hhandler hpatterns hfate =>
    have hevent : t.event? = none := by simp [event?, hfate]
    have hrecorded := (Handlers.find?_recorded i.handlers t.action.name).trans
      (congrArg _ hhandler)
    rw [hevent, Option.toList_none, List.append_nil]
    exact .unheard hrecorded hpatterns hfate
  | @asked answer _ _ hhandler hpatterns hrun hfate =>
    have hevent : t.event? =
        some (.asked (i.patternsFor t.action.name) t.text answer) := by
      simp [event?, hfate]
    have hrecorded := (Handlers.find?_recorded i.handlers t.action.name).trans
      (congrArg _ hhandler)
    rw [hevent]
    exact .asked hrecorded hpatterns (Recorded.run_taking _ hrun events) hfate

end Turn

namespace Course

theorem run {i : Interpreter (StateM σ)} {depth : Nat} {args : Bindings}
    {actions : List Action} {s s' : Moment σ} {turns : List Turn} {stop : Stop}
    (h : Course i depth args actions s turns stop s') {room : Nat}
    (hroom : depth + room = i.nesting) :
    (Interpreter.inSequence (i.runAction room args) actions s.gathered).run s.world =
      ((stop.result, s'.gathered), s'.world) := by
  induction h generalizing room with
  | done => rfl
  | next _ _ ih ih' =>
    have hfirst := ih hroom
    rw [Interpreter.run_inSequence_single] at hfirst
    rw [Interpreter.run_inSequence_of_ok hfirst]
    exact ih' hroom
  | @halted _ _ _ _ _ _ _ stop _ hstop ih =>
    have hfirst := ih hroom
    rw [Interpreter.run_inSequence_single] at hfirst
    cases stop with
    | completed => exact absurd rfl hstop
    | failed f => exact Interpreter.run_inSequence_of_error hfirst _
    | cutOff => exact Interpreter.run_inSequence_of_error hfirst _
  | called hoccurs hfate hok =>
    rw [Interpreter.run_inSequence_single]
    exact hoccurs.run_of_called hfate hok
  | failed hoccurs hfailure =>
    rw [Interpreter.run_inSequence_single]
    exact hoccurs.run_of_failure hfailure
  | opened hoccurs hfound hbehavior hdepth _ ih =>
    obtain ⟨less, rfl⟩ : ∃ less, room = less + 1 := ⟨room - 1, by omega⟩
    rw [Interpreter.run_inSequence_single, hoccurs.run_of_found hfound hbehavior]
    exact ih (by omega)
  | cutOff hoccurs hfound hdepth =>
    obtain rfl : room = 0 := by omega
    obtain ⟨behavior, hbehavior⟩ := hoccurs.exists_behavior hfound
    rw [Interpreter.run_inSequence_single, hoccurs.run_of_found hfound hbehavior]
    rfl

/-- What a recorded run takes down is what the turns of its course ask, and it runs the same. -/
theorem recorded {i : Interpreter (StateM σ)} {depth : Nat} {args : Bindings}
    {actions : List Action} {s s' : Moment σ} {turns : List Turn} {stop : Stop}
    (h : Course i depth args actions s turns stop s') (events : List Event) :
    Course i.recorded depth args actions ⟨s.gathered, ⟨events, s.world⟩⟩ turns stop
      ⟨s'.gathered, ⟨events ++ Turn.events turns, s'.world⟩⟩ := by
  induction h generalizing events with
  | done =>
    rw [Turn.events_nil, List.append_nil]
    exact .done
  | next _ _ ih ih' =>
    rw [Turn.events_append, ← List.append_assoc]
    exact .next (ih events) (ih' _)
  | halted _ hstop ih => exact .halted (ih events) hstop
  | called hoccurs hfate hok =>
    rw [Turn.events_single]
    exact .called (hoccurs.recorded events) hfate hok
  | failed hoccurs hfailure =>
    rw [Turn.events_single]
    exact .failed (hoccurs.recorded events) hfailure
  | opened hoccurs hfound hbehavior hdepth _ ih =>
    rw [Turn.events_cons, ← List.append_assoc]
    exact .opened (hoccurs.recorded events) hfound hbehavior hdepth (ih _)
  | cutOff hoccurs hfound hdepth =>
    rw [Turn.events_single]
    exact .cutOff (hoccurs.recorded events) hfound hdepth

private theorem exists_of_nested {i : Interpreter (StateM σ)} {depth : Nat}
    (hnested : depth < i.nesting → ∀ (args : Bindings) (actions : List Action) (s : Moment σ),
      ∃ turns stop s', Course i (depth + 1) args actions s turns stop s')
    (args : Bindings) (actions : List Action) (s : Moment σ) :
    ∃ turns stop s', Course i depth args actions s turns stop s' := by
  have hsingle (action : Action) (s : Moment σ) :
      ∃ turns stop s', Course i depth args [action] s turns stop s' := by
    obtain ⟨gathered, world⟩ := s
    obtain ⟨fate, world', hoccurs⟩ := Turn.exists_occurs i depth args gathered action world
    cases hfailure : Turn.failure? ⟨depth, args, gathered, action, fate⟩ with
    | some f => exact ⟨_, _, _, .failed hoccurs hfailure⟩
    | none =>
      rcases Turn.called_or_found hfailure with ⟨ending, hfate⟩ | ⟨found, hfound⟩
      · exact ⟨_, _, _, .called hoccurs hfate hfailure⟩
      · by_cases hdepth : depth < i.nesting
        · obtain ⟨behavior, hbehavior⟩ := hoccurs.exists_behavior hfound
          obtain ⟨turns, stop, s', hinside⟩ :=
            hnested hdepth found.captures behavior.actions ⟨gathered, world'⟩
          exact ⟨_, _, _, .opened hoccurs hfound hbehavior hdepth hinside⟩
        · exact ⟨_, _, _, .cutOff hoccurs hfound (Nat.le_of_not_lt hdepth)⟩
  -- What a concept does has a course already, so the induction is on the actions of one list.
  induction actions generalizing s with
  | nil => exact ⟨_, _, _, .done⟩
  | cons action rest ih =>
    obtain ⟨turns, stop, s', hfirst⟩ := hsingle action s
    by_cases hstop : stop = .completed
    · subst hstop
      obtain ⟨turns', stop', s'', hrest⟩ := ih s'
      exact ⟨_, _, _, .next hfirst hrest⟩
    · exact ⟨_, _, _, .halted hfirst hstop⟩

/-- Every run has a course. -/
theorem exists_course (i : Interpreter (StateM σ)) (room : Nat) {depth : Nat}
    (hroom : i.nesting ≤ depth + room) (args : Bindings) (actions : List Action) (s : Moment σ) :
    ∃ turns stop s', Course i depth args actions s turns stop s' := by
  -- Inside a concept there is less room; where there is none, no concept is opened.
  induction room generalizing depth args actions s with
  | zero =>
    refine exists_of_nested (fun hdepth => ?_) args actions s
    omega
  | succ room ih =>
    refine exists_of_nested (fun _ => ?_) args actions s
    exact ih (by omega)

theorem of_runActions (i : Interpreter (StateM σ)) (actions : List Action)
    (args gathered : Bindings) (world : σ) :
    ∃ turns stop gathered' world',
      Course i 0 args actions ⟨gathered, world⟩ turns stop ⟨gathered', world'⟩ ∧
      (i.runActions actions args gathered).run world = ((stop.result, gathered'), world') ∧
      (i.recorded.runActions actions args gathered).run ⟨[], world⟩ =
        ((stop.result, gathered'), ⟨Turn.events turns, world'⟩) := by
  obtain ⟨turns, stop, ⟨gathered', world'⟩, h⟩ :=
    exists_course i i.nesting (Nat.le_add_left _ _) args actions ⟨gathered, world⟩
  exact ⟨turns, stop, gathered', world', h, h.run (Nat.zero_add _),
    (h.recorded []).run (Nat.zero_add _)⟩

end Course
end StepScript
