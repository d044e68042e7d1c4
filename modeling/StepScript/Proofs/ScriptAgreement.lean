import Mathlib.Data.List.Nodup
import StepScript.Proofs.CaptureScope
import StepScript.Proofs.Job
import StepScript.Proofs.Nesting

/-!
Which definitions a run depends on. It looks concepts up by name, and only under names that have no
handler. So two scripts with the same steps that answer every such look-up in the same way are
carried out in the same way, whatever the matcher and the handlers do: in one order of concepts as
in another, and with any concepts that handlers stand before.
-/

set_option autoImplicit false
set_option relaxedAutoImplicit false

namespace StepScript

namespace Script

variable {m : Type → Type}

/-- Two scripts define the same under every name that has no handler. -/
def AgreesOutside (handlers : Handlers m) (script script' : Script) : Prop :=
  ∀ name, handlers.contains name = false → script.concept? name = script'.concept? name

def reachable (handlers : Handlers m) (script : Script) : List Concept :=
  script.concepts.filter fun c => !handlers.contains c.name

private theorem concept?_eq_find?_reachable {handlers : Handlers m} {name : String}
    (h : handlers.contains name = false) (script : Script) :
    script.concept? name = (script.reachable handlers).find? fun c => c.name == name := by
  rw [reachable, List.find?_filter, concept?]
  congr 1
  funext c
  by_cases hname : c.name = name
  · simp [hname, h]
  · simp [hname]

private theorem find?_name_eq_some_iff {concepts : List Concept}
    (hnames : (concepts.map Concept.name).Nodup) {name : String} {c : Concept} :
    concepts.find? (fun c => c.name == name) = some c ↔ c ∈ concepts ∧ c.name = name := by
  constructor
  · intro hfind
    exact ⟨List.mem_of_find?_eq_some hfind, by simpa using List.find?_some hfind⟩
  · rintro ⟨hmem, hname⟩
    have hsome : (concepts.find? fun c => c.name == name).isSome = true :=
      List.find?_isSome.2 ⟨c, hmem, by simp [hname]⟩
    obtain ⟨found, hfind⟩ := Option.isSome_iff_exists.1 hsome
    have hfound : found.name = name := by simpa using List.find?_some hfind
    have hsame : found = c := List.inj_on_of_nodup_map hnames (List.mem_of_find?_eq_some hfind) hmem
      (hfound.trans hname.symm)
    rw [hfind, hsame]

private theorem agreesOutside_of_perm {handlers : Handlers m} {script script' : Script}
    (hperm : (script.reachable handlers).Perm (script'.reachable handlers))
    (hnames : ((script.reachable handlers).map Concept.name).Nodup) :
    script.AgreesOutside handlers script' := by
  intro name hname
  have hnames' : ((script'.reachable handlers).map Concept.name).Nodup :=
    (hperm.map Concept.name).nodup_iff.1 hnames
  rw [concept?_eq_find?_reachable hname, concept?_eq_find?_reachable hname]
  ext c
  rw [find?_name_eq_some_iff hnames, find?_name_eq_some_iff hnames', hperm.mem_iff]

end Script

namespace Interpreter

section Reading

variable {m : Type → Type}

def reading (i : Interpreter m) (script : Script) : Interpreter m := { i with script := script }

variable [Monad m] {i : Interpreter m} {script : Script}

private theorem runAction_reading_of_contains {a : Action} (h : i.handlers.contains a.name = true)
    (room : Nat) (args gathered : Bindings) :
    (i.reading script).runAction room args a gathered = i.runAction room args a gathered := by
  have h' : (i.reading script).handlers.contains a.name = true := h
  unfold runAction
  rw [if_pos h, if_pos h']
  rfl

private theorem runAction_reading (h : i.script.AgreesOutside i.handlers script) (room : Nat)
    (args : Bindings) (a : Action) (gathered : Bindings) :
    (i.reading script).runAction room args a gathered = i.runAction room args a gathered := by
  -- By how many concepts may still be opened: inside of one, they are fewer.
  induction room generalizing args a gathered with
  | zero =>
    cases hhandler : i.handlers.contains a.name with
    | true => exact runAction_reading_of_contains hhandler 0 args gathered
    | false =>
      unfold runAction
      simp only [reading, hhandler, Bool.false_eq_true, if_false, ← h a.name hhandler]
      rfl
  | succ room ih =>
    cases hhandler : i.handlers.contains a.name with
    | true => exact runAction_reading_of_contains hhandler (room + 1) args gathered
    | false =>
      have hinside (captures : Bindings) :
          (i.reading script).runAction room captures = i.runAction room captures :=
        funext fun a => funext fun gathered => ih captures a gathered
      unfold runAction
      simp only [hinside]
      simp only [reading, hhandler, Bool.false_eq_true, if_false, ← h a.name hhandler]
      rfl

private theorem runActions_reading (h : i.script.AgreesOutside i.handlers script)
    (actions : List Action) (args gathered : Bindings) :
    (i.reading script).runActions actions args gathered = i.runActions actions args gathered := by
  have hone : (i.reading script).runAction i.nesting args = i.runAction i.nesting args :=
    funext fun a => funext fun gathered => runAction_reading h i.nesting args a gathered
  show inSequence ((i.reading script).runAction i.nesting args) actions gathered = _
  rw [hone]
  rfl

private theorem perform_reading (hsteps : i.script.steps = script.steps)
    (h : i.script.AgreesOutside i.handlers script) {job : Job}
    (hjob : ∀ concept text, job = .behavior concept text → i.handlers.contains concept = false)
    (gathered : Bindings) : (i.reading script).perform gathered job = i.perform gathered job := by
  cases job with
  | actions actions args => exact runActions_reading h actions args gathered
  | step text =>
    have hpatterns : script.stepPatterns = i.script.stepPatterns := by
      rw [Script.stepPatterns, ← hsteps, Script.stepPatterns]
    have hstep (pattern : String) : script.step? pattern = i.script.step? pattern := by
      rw [Script.step?, ← hsteps, Script.step?]
    simp only [perform, runStep, runActions_reading h]
    simp only [reading, hpatterns, hstep]
    rfl
  | behavior concept text =>
    have hconcept := h concept (hjob concept text rfl)
    simp only [perform, runBehavior, runActions_reading h]
    simp only [reading, ← hconcept]
    rfl

end Reading

variable {σ : Type}

/-- Of the definitions of a script only its steps matter, and what it answers under names that have no
handler: with two scripts that agree there, jobs ask the same of the matcher and of the handlers in
the same order and come to the same end, with the same gathered. So the order of concepts does not
matter when their names are different, and neither do the concepts that handlers stand before. -/
theorem perform_eq_of_agreesOutside (i : Interpreter (StateM σ)) (script : Script)
    (hsteps : i.script.steps = script.steps) :
    (((i.script.reachable i.handlers).map Concept.name).Nodup →
      (i.script.reachable i.handlers).Perm (script.reachable i.handlers) →
      i.script.AgreesOutside i.handlers script) ∧
    (i.script.AgreesOutside i.handlers script → ∀ job gathered world,
      (∀ concept text, job = .behavior concept text → i.handlers.contains concept = false) →
      ((i.reading script).perform gathered job).run world = (i.perform gathered job).run world ∧
      ((i.reading script).recorded.perform gathered job).run ⟨[], world⟩ =
        (i.recorded.perform gathered job).run ⟨[], world⟩) := by
  refine ⟨fun hnames hperm => Script.agreesOutside_of_perm hperm hnames, ?_⟩
  intro hagree job gathered world hjob
  have hagree' : i.recorded.script.AgreesOutside i.recorded.handlers script := by
    intro name hname
    exact hagree name ((Handlers.contains_recorded i.handlers name).symm.trans hname)
  have hjob' (concept text : String) (h : job = .behavior concept text) :
      i.recorded.handlers.contains concept = false :=
    not_contains_recorded (hjob concept text h)
  constructor
  · rw [perform_reading hsteps hagree hjob]
  · have hrecorded := perform_reading (i := i.recorded) hsteps hagree' hjob' gathered
    exact congrArg (fun run => run.run ⟨[], world⟩) hrecorded

def rearranged : Script :=
  ⟨[], visitor.script.concepts.reverse ++ [⟨"type", [⟨"it", [⟨"arrive", "with it", none⟩]⟩]⟩], []⟩

theorem perform_eq_rearranged :
    visitor.script.steps = rearranged.steps ∧ visitor.script.concepts ≠ rearranged.concepts ∧
      visitor.script.AgreesOutside visitor.handlers rearranged ∧
      ((visitor.reading rearranged).recorded.perform Dict.empty
          (.actions [⟨"arrive", "with ann", none⟩] Dict.empty)).run ⟨[], ()⟩ =
        (visitor.recorded.perform Dict.empty
          (.actions [⟨"arrive", "with ann", none⟩] Dict.empty)).run ⟨[], ()⟩ := by
  have hsteps : visitor.script.steps = rearranged.steps := rfl
  obtain ⟨horder, hruns⟩ := perform_eq_of_agreesOutside visitor rearranged hsteps
  have hagree : visitor.script.AgreesOutside visitor.handlers rearranged :=
    horder (by decide +kernel) (by decide +kernel)
  have hjob (concept text : String)
      (h : .actions [⟨"arrive", "with ann", none⟩] Dict.empty = Job.behavior concept text) :
      visitor.handlers.contains concept = false := Job.noConfusion h
  exact ⟨hsteps, by decide +kernel, hagree, (hruns hagree _ Dict.empty () hjob).2⟩

end Interpreter
end StepScript
