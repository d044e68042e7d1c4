import StepScript.Proofs.Course

/-!
The jobs of an interpreter: to carry out actions, a step, or the behavior of a concept. Each of them
is its opening, in which the matcher chooses what to carry out, and then a run of actions.
-/

set_option autoImplicit false
set_option relaxedAutoImplicit false

namespace StepScript

variable {σ : Type}

inductive Job
  | actions (actions : List Action) (args : Bindings)
  | step (text : String)
  | behavior (concept text : String)

namespace Interpreter

variable {m : Type → Type}

def perform [Monad m] (i : Interpreter m) (gathered : Bindings) : Job → m RunResult
  | .actions actions args => i.runActions actions args gathered
  | .step text => i.runStep text gathered
  | .behavior concept text => i.runBehavior concept text gathered

/-- How a job begins: with actions and their arguments, or with a failure. -/
def opening [Monad m] (i : Interpreter m) : Job → m (Except Failure (List Action × Bindings))
  | .actions actions args => return .ok (actions, args)
  | .step text => do
    match ← i.choose i.script.stepPatterns text with
    | .error f => return .error f
    | .ok none => return .error (.action (.stepNotFound text))
    | .ok (some found) =>
      match i.script.step? found.pattern with
      | none => return .error (.action (.stepNotFound text))
      | some step => return .ok (step.actions, found.captures)
  | .behavior concept text => do
    match i.script.concept? concept with
    | none => return .error (.action (.unknownConcept concept))
    | some found =>
      match ← i.chooseBehavior found text with
      | .error f => return .error f
      | .ok none => return .error (.action (.noMatchingBehavior concept text))
      | .ok (some (behavior, captures)) => return .ok (behavior.actions, captures)

private theorem perform_eq [Monad m] [LawfulMonad m] (i : Interpreter m) (gathered : Bindings)
    (job : Job) :
    i.perform gathered job = (do
      match ← i.opening job with
      | .error f => return (.error f, gathered)
      | .ok (actions, args) => i.runActions actions args gathered) := by
  cases job with
  | actions actions args => simp only [perform, opening, pure_bind]
  | step text =>
    simp only [perform, runStep, opening, bind_assoc]
    congr 1
    funext choice
    rcases choice with f | _ | found
    · simp only [pure_bind]
    · simp only [pure_bind]
    · cases hstep : i.script.step? found.pattern with
      | none => simp only [hstep, pure_bind]
      | some step => simp only [hstep, pure_bind]
  | behavior concept text =>
    cases hconcept : i.script.concept? concept with
    | none => simp only [perform, runBehavior, opening, hconcept, pure_bind]
    | some found =>
      simp only [perform, runBehavior, opening, hconcept, bind_assoc]
      congr 1
      funext choice
      rcases choice with f | _ | ⟨behavior, captures⟩
      · simp only [pure_bind]
      · simp only [pure_bind]
      · simp only [pure_bind]

end Interpreter

private theorem Consults.opening (i : Interpreter (StateM σ)) (job : Job) :
    Consults (i.opening job) (i.recorded.opening job) := by
  cases job with
  | actions actions args => exact .pure _
  | step text =>
    refine bind (choose i i.script.stepPatterns text) fun choice => ?_
    rcases choice with f | _ | found
    · exact .pure _
    · exact .pure _
    · have hscript : i.recorded.script = i.script := rfl
      simp only [hscript]
      cases i.script.step? found.pattern with
      | none => exact .pure _
      | some step => exact .pure _
  | behavior concept text =>
    have hscript : i.recorded.script = i.script := rfl
    simp only [Interpreter.opening, hscript]
    cases i.script.concept? concept with
    | none => exact .pure _
    | some found =>
      refine bind (chooseBehavior i found text) fun choice => ?_
      rcases choice with f | _ | ⟨behavior, captures⟩
      · exact .pure _
      · exact .pure _
      · exact .pure _

inductive JobCourse (i : Interpreter (StateM σ)) (job : Job) (s : Moment σ) :
    List Turn → Stop → Moment σ → Prop
  | refused {f : Failure} {world : σ} (hopening : (i.opening job).run s.world = (.error f, world)) :
      JobCourse i job s [] (.failed f) ⟨s.gathered, world⟩
  | begun {actions : List Action} {args : Bindings} {world : σ} {turns : List Turn} {stop : Stop}
      {s' : Moment σ} (hopening : (i.opening job).run s.world = (.ok (actions, args), world))
      (hcourse : Course i 0 args actions ⟨s.gathered, world⟩ turns stop s') :
      JobCourse i job s turns stop s'

namespace JobCourse

variable {i : Interpreter (StateM σ)} {job : Job} {s s' : Moment σ} {turns : List Turn}
  {stop : Stop}

theorem exists_jobCourse (i : Interpreter (StateM σ)) (job : Job) (s : Moment σ) :
    ∃ turns stop s', JobCourse i job s turns stop s' := by
  rcases hopening : (i.opening job).run s.world with ⟨f | ⟨actions, args⟩, world⟩
  · exact ⟨_, _, _, .refused hopening⟩
  · obtain ⟨turns, stop, s', hcourse⟩ := Course.exists_course i i.nesting (Nat.le_add_left _ 0)
      args actions ⟨s.gathered, world⟩
    exact ⟨_, _, _, .begun hopening hcourse⟩

theorem run (h : JobCourse i job s turns stop s') :
    (i.perform s.gathered job).run s.world = ((stop.result, s'.gathered), s'.world) := by
  rw [Interpreter.perform_eq]
  cases h with
  | refused hopening => exact run_bind_of hopening
  | begun hopening hcourse =>
    rw [run_bind_of hopening]
    exact hcourse.run (Nat.zero_add _)

/-- A job that is recorded asks the matcher how to begin, and then what its turns ask. -/
theorem recorded (h : JobCourse i job s turns stop s') :
    ∃ asked : List Event, (∀ e ∈ asked, e.isQuestion = true) ∧
      JobCourse i.recorded job ⟨s.gathered, ⟨[], s.world⟩⟩ turns stop
        ⟨s'.gathered, ⟨asked ++ Turn.events turns, s'.world⟩⟩ := by
  obtain ⟨asked, hasked, hrun⟩ := Consults.opening i job s.world
  have hopening' := hrun []
  refine ⟨asked, hasked, ?_⟩
  cases h with
  | refused hopening =>
    rw [hopening] at hopening'
    rw [Turn.events_nil, List.append_nil]
    exact .refused hopening'
  | begun hopening hcourse =>
    rw [hopening] at hopening'
    exact .begun hopening' (hcourse.recorded asked)

theorem run_recorded (h : JobCourse i job s turns stop s') :
    ∃ asked : List Event, (∀ e ∈ asked, e.isQuestion = true) ∧
      (i.recorded.perform s.gathered job).run ⟨[], s.world⟩ =
        ((stop.result, s'.gathered), ⟨asked ++ Turn.events turns, s'.world⟩) := by
  obtain ⟨asked, hasked, hrecorded⟩ := h.recorded
  exact ⟨asked, hasked, hrecorded.run⟩

end JobCourse
end StepScript
