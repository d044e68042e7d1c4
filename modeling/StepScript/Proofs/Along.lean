import StepScript.Interpreter

/-!
What a run does to the world, as far as a relation tells. If the relation can be composed, making
directories keeps to it as soon as making one does, and a run of the interpreter as soon as its
handlers and its matcher do.
-/

set_option autoImplicit false
set_option relaxedAutoImplicit false

namespace StepScript

variable {σ α β : Type}

structure IsPath (R : σ → σ → Prop) : Prop where
  refl : ∀ world, R world world
  trans : ∀ {world world' world'' : σ}, R world world' → R world' world'' → R world world''

/-- A run takes each world to one that is related to it. -/
def Along (R : σ → σ → Prop) (x : StateM σ α) : Prop := ∀ world, R world (x.run world).2

namespace Along

variable {R : σ → σ → Prop}

theorem of_run {x : StateM σ α} {world world' : σ} {a : α} (hx : Along R x)
    (hrun : x.run world = (a, world')) : R world world' := by
  have hstep := hx world
  rwa [hrun] at hstep

theorem pure (hR : IsPath R) (a : α) : Along R (pure a : StateM σ α) := hR.refl

theorem bind (hR : IsPath R) {x : StateM σ α} {f : α → StateM σ β} (hx : Along R x)
    (hf : ∀ a, Along R (f a)) : Along R (x >>= f) :=
  fun world => hR.trans (hx world) (hf _ _)

end Along

/-! ## Making directories -/

namespace FileAccess

variable {R : σ → σ → Prop} {files : FileAccess (StateM σ)}

structure Digs (files : FileAccess (StateM σ)) (R : σ → σ → Prop) : Prop where
  path : IsPath R
  makeDirectory : ∀ path, Along R (files.makeDirectory path)
  kind : ∀ path, Along R (files.kind? path)

namespace Digs

variable (h : files.Digs R)

include h

private theorem ifDirectory (path : Path) (e : FileError) :
    Along R (do return if ← files.isDirectory path then .ok () else .error e :
      StateM σ (Except FileError Unit)) :=
  .bind h.path (.bind h.path (h.kind path) fun _ => .pure h.path _) fun _ => .pure h.path _

private theorem makeDirectoriesFrom (depth : Nat) (path : Path) :
    Along R (files.makeDirectoriesFrom depth path) := by
  induction depth generalizing path with
  | zero => exact .pure h.path _
  | succ depth ih =>
    unfold FileAccess.makeDirectoriesFrom
    by_cases hempty : (path.text == "") = true
    · rw [if_pos hempty]
      exact .pure h.path _
    rw [if_neg hempty]
    refine .bind h.path (h.makeDirectory path) fun made => ?_
    cases made with
    | ok _ => exact .pure h.path _
    | error e =>
      cases e with
      | notFound =>
        simp only
        cases path.parent with
        | none => exact .pure h.path _
        | some parent =>
          refine .bind h.path (ih parent) fun above => ?_
          cases above with
          | error e => exact .pure h.path _
          | ok _ =>
            refine .bind h.path (h.makeDirectory path) fun last => ?_
            cases last with
            | ok _ => exact .pure h.path _
            | error e => exact h.ifDirectory path e
      | _ => exact h.ifDirectory path _

theorem makeParent (path : Path) : Along R (Cache.makeParent files path) := by
  unfold Cache.makeParent
  cases path.parent with
  | none => exact .pure h.path _
  | some parent => exact h.makeDirectoriesFrom _ parent

end Digs

end FileAccess

namespace Interpreter

variable {R : σ → σ → Prop} {i : Interpreter (StateM σ)}

/-- The handlers and the matcher of an interpreter keep to a relation. -/
structure KeepsTo (i : Interpreter (StateM σ)) (R : σ → σ → Prop) : Prop where
  path : IsPath R
  find : ∀ patterns text, Along R (i.matcher.find patterns text)
  call : ∀ name handler, i.handlers.find? name = some handler → ∀ text arg,
    Along R (handler text arg)

namespace KeepsTo

private theorem inSequence (hR : IsPath R) {one : α → Bindings → StateM σ RunResult}
    (hone : ∀ a gathered, Along R (one a gathered)) (items : List α) (gathered : Bindings) :
    Along R (inSequence one items gathered) := by
  induction items generalizing gathered with
  | nil => exact .pure hR _
  | cons a rest ih =>
    refine .bind hR (hone a gathered) ?_
    rintro ⟨r, gathered'⟩
    cases r with
    | error f => exact .pure hR _
    | ok _ => exact ih gathered'

variable (h : i.KeepsTo R)

include h

private theorem choose (patterns : List String) (text : String) : Along R
    (i.choose patterns text) := by
  unfold Interpreter.choose
  cases patterns.isEmpty with
  | true => exact .pure h.path _
  | false =>
    refine .bind h.path (h.find patterns text) fun answer => ?_
    rcases answer with f | _ | found <;> exact .pure h.path _

private theorem chooseBehavior (concept : Concept) (text : String) :
    Along R (i.chooseBehavior concept text) := by
  refine .bind h.path (h.choose concept.patterns text) fun answer => ?_
  rcases answer with f | _ | found <;> exact .pure h.path _

private theorem runPrimitive (name text : String) (arg : Option String) (gathered : Bindings) :
    Along R (i.runPrimitive name text arg gathered) := by
  have hcall : Along R (i.handlers.call name text arg) := by
    unfold Handlers.call
    cases hhandler : i.handlers.find? name with
    | none => exact .pure h.path _
    | some handler =>
      exact .bind h.path (h.call name handler hhandler text arg) fun _ => .pure h.path _
  refine .bind h.path hcall fun outcome => ?_
  cases outcome.success <;> exact .pure h.path _

private theorem runAction_of {room : Nat}
    (hnested : ∀ less, room = less + 1 → ∀ args action gathered,
      Along R (i.runAction less args action gathered))
    (args : Bindings) (action : Action) (gathered : Bindings) :
    Along R (i.runAction room args action gathered) := by
  unfold Interpreter.runAction
  cases i.handlers.contains action.name with
  | true => exact h.runPrimitive _ _ _ _
  | false =>
    simp only [Bool.false_eq_true, if_false]
    cases i.script.concept? action.name with
    | none => exact .pure h.path _
    | some concept =>
      refine .bind h.path (h.chooseBehavior concept _) fun chosen => ?_
      rcases chosen with f | _ | ⟨behavior, captures⟩
      · exact .pure h.path _
      · exact .pure h.path _
      · cases room with
        | zero => exact .pure h.path _
        | succ less => exact inSequence h.path (hnested less rfl captures) _ _

theorem runAction (room : Nat) (args : Bindings) (action : Action) (gathered : Bindings) :
    Along R (i.runAction room args action gathered) := by
  induction room generalizing args action gathered with
  | zero =>
    refine h.runAction_of (fun less hless => ?_) args action gathered
    omega
  | succ room ih =>
    refine h.runAction_of ?_ args action gathered
    rintro less ⟨⟩
    exact ih

theorem runActions (actions : List Action) (args gathered : Bindings) :
    Along R (i.runActions actions args gathered) :=
  inSequence h.path (h.runAction i.nesting args) actions gathered

theorem runStep (text : String) (gathered : Bindings) : Along R (i.runStep text gathered) := by
  refine .bind h.path (h.choose i.script.stepPatterns text) fun answer => ?_
  rcases answer with f | _ | found
  · exact .pure h.path _
  · exact .pure h.path _
  · simp only
    cases i.script.step? found.pattern with
    | none => exact .pure h.path _
    | some step => exact h.runActions _ _ _

theorem runBehavior (concept text : String) (gathered : Bindings) :
    Along R (i.runBehavior concept text gathered) := by
  unfold Interpreter.runBehavior
  cases i.script.concept? concept with
  | none => exact .pure h.path _
  | some found =>
    refine .bind h.path (h.chooseBehavior found text) fun chosen => ?_
    rcases chosen with f | _ | chosen
    · exact .pure h.path _
    · exact .pure h.path _
    · exact h.runActions _ _ _

theorem runHooks (phase : Phase) (tags : List String) (gathered : Bindings) :
    Along R (i.runHooks phase tags gathered) := by
  refine inSequence h.path ?_ (i.script.hooksAt phase tags) gathered
  intro hook gathered'
  exact h.runActions hook.actions Dict.empty gathered'

end KeepsTo

end Interpreter
end StepScript
