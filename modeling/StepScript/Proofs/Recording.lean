import StepScript.Interpreter

/-!
Runs with a record. What a run asks of its handlers and of its matcher is taken down in order, with
what comes back; the run itself stays the same. To choose a pattern or a behavior asks the matcher,
and no handler.
-/

set_option autoImplicit false
set_option relaxedAutoImplicit false

namespace StepScript

/-- What a run asks of a handler or of the matcher, and what comes back. -/
inductive Event
  | called (name text : String) (arg : Option String) (ending : Ending)
  | asked (patterns : List String) (text : String) (answer : Except Failure (Option Match))

structure Recorded (σ : Type) where
  events : List Event
  world : σ

variable {σ : Type}

def Recorded.taking {α : Type} (event : α → Event) (x : StateM σ α) : StateM (Recorded σ) α :=
  fun r => ((x.run r.world).1, ⟨r.events ++ [event (x.run r.world).1], (x.run r.world).2⟩)

theorem Recorded.run_taking {α : Type} (event : α → Event) {x : StateM σ α} {world world' : σ}
    {a : α} (h : x.run world = (a, world')) (events : List Event) :
    (Recorded.taking event x).run ⟨events, world⟩ = (a, ⟨events ++ [event a], world'⟩) := by
  have hrun : (Recorded.taking event x).run ⟨events, world⟩ =
      ((x.run world).1, ⟨events ++ [event (x.run world).1], (x.run world).2⟩) := rfl
  rw [hrun, h]

def Handlers.recorded (handlers : Handlers (StateM σ)) : Handlers (StateM (Recorded σ)) :=
  ⟨handlers.entries.map fun entry => (entry.1, fun text arg =>
      Recorded.taking (.called entry.1 text arg) (entry.2 text arg)),
    List.pairwise_map.2 handlers.ascending⟩

theorem Handlers.find?_recorded (handlers : Handlers (StateM σ)) (name : String) :
    handlers.recorded.find? name = (handlers.find? name).map fun handler text arg =>
      Recorded.taking (.called name text arg) (handler text arg) := by
  obtain ⟨entries, ascending⟩ := handlers
  simp only [Handlers.recorded, Dict.find?]
  clear ascending
  induction entries with
  | nil => rfl
  | cons entry entries ih =>
    by_cases h : entry.1 = name
    · subst h
      simp [Dict.lookup]
    · simpa [Dict.lookup, h] using ih

theorem Handlers.contains_recorded (handlers : Handlers (StateM σ)) (name : String) :
    handlers.recorded.contains name = handlers.contains name := by
  rw [Dict.contains, Handlers.find?_recorded, Option.isSome_map, Dict.contains]

def Matcher.recorded (matcher : Matcher (StateM σ)) : Matcher (StateM (Recorded σ)) where
  find patterns text := Recorded.taking (.asked patterns text) (matcher.find patterns text)

namespace Interpreter

def recorded (i : Interpreter (StateM σ)) : Interpreter (StateM (Recorded σ)) :=
  ⟨i.script, i.handlers.recorded, i.matcher.recorded, i.nesting⟩

end Interpreter

theorem run_bind_of {α β : Type} {x : StateM σ α} {f : α → StateM σ β} {world world' : σ}
    {a : α} (h : x.run world = (a, world')) : (x >>= f).run world = (f a).run world' := by
  have hbind : (x >>= f).run world = (f (x.run world).1).run (x.run world).2 := rfl
  rw [hbind, h]

def Event.isQuestion : Event → Bool
  | .called _ _ _ _ => false
  | .asked _ _ _ => true

/-- A run with a record does what another one does, and asks nobody but the matcher. -/
def Consults {α : Type} (x : StateM σ α) (y : StateM (Recorded σ) α) : Prop :=
  ∀ world, ∃ asked : List Event, (∀ e ∈ asked, e.isQuestion = true) ∧
    ∀ events, y.run ⟨events, world⟩ = ((x.run world).1, ⟨events ++ asked, (x.run world).2⟩)

namespace Consults

variable {α β : Type}

theorem pure (a : α) : Consults (σ := σ) (pure a) (pure a) := by
  intro world
  refine ⟨[], by simp, fun events => ?_⟩
  rw [List.append_nil]
  rfl

theorem bind {x : StateM σ α} {y : StateM (Recorded σ) α} {f : α → StateM σ β}
    {g : α → StateM (Recorded σ) β} (hx : Consults x y) (hf : ∀ a, Consults (f a) (g a)) :
    Consults (x >>= f) (y >>= g) := by
  intro world
  obtain ⟨asked, hasked, hrun⟩ := hx world
  obtain ⟨asked', hasked', hrun'⟩ := hf (x.run world).1 (x.run world).2
  refine ⟨asked ++ asked', ?_, fun events => ?_⟩
  · intro e he
    rcases List.mem_append.1 he with he | he
    · exact hasked e he
    · exact hasked' e he
  · rw [run_bind_of (hrun events), hrun', List.append_assoc]
    rfl

theorem choose (i : Interpreter (StateM σ)) (patterns : List String) (text : String) :
    Consults (i.choose patterns text) (i.recorded.choose patterns text) := by
  unfold Interpreter.choose
  cases patterns.isEmpty with
  | true => exact .pure _
  | false =>
    refine bind (fun world => ?_) fun answer => ?_
    · refine ⟨[.asked patterns text ((i.matcher.find patterns text).run world).1], ?_, ?_⟩
      · simp [Event.isQuestion]
      · exact fun events => Recorded.run_taking _ rfl events
    · rcases answer with f | _ | found
      · exact .pure _
      · exact .pure _
      · exact .pure _

theorem chooseBehavior (i : Interpreter (StateM σ)) (concept : Concept) (text : String) :
    Consults (i.chooseBehavior concept text) (i.recorded.chooseBehavior concept text) := by
  refine bind (choose i concept.patterns text) fun choice => ?_
  rcases choice with f | _ | found
  · exact .pure _
  · exact .pure _
  · exact .pure _

end Consults
end StepScript
