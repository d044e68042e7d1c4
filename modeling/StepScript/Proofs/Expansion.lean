import StepScript.Proofs.CaptureScope
import StepScript.Proofs.Nesting
import StepScript.Proofs.TemplatePieces

/-!
Two ways into a concept. Its behavior can be asked for directly, or by an action of its name, and
both ways choose a behavior for the text and then carry out its actions: so they ask the same of the
matcher and of the handlers, and gather the same. They differ only in how they tell that there is no
such concept, or that none of its behaviors fits.
-/

set_option autoImplicit false
set_option relaxedAutoImplicit false

namespace StepScript

inductive Expansion
  | noConcept
  | noBehavior
  | failed (f : Failure)
  | opened (actions : List Action) (captures : Bindings)

/-- The end of a run that begins like this, given how it tells that nothing fits and how the actions
end. -/
private def Expansion.told (noConcept noBehavior : RunError) (ended : Except Failure Unit) :
    Expansion → Except Failure Unit
  | .noConcept => .error (.action noConcept)
  | .noBehavior => .error (.action noBehavior)
  | .failed f => .error f
  | .opened _ _ => ended

namespace Interpreter

section Ways

variable {m : Type → Type} [Monad m]

private def expand (i : Interpreter m) (concept text : String) : m Expansion := do
  match i.script.concept? concept with
  | none => return .noConcept
  | some found =>
    match ← i.chooseBehavior found text with
    | .error f => return .failed f
    | .ok none => return .noBehavior
    | .ok (some (behavior, captures)) => return .opened behavior.actions captures

private def follow (i : Interpreter m) (room : Nat) (noConcept noBehavior : RunError)
    (gathered : Bindings) : Expansion → m RunResult
  | .noConcept => return (.error (.action noConcept), gathered)
  | .noBehavior => return (.error (.action noBehavior), gathered)
  | .failed f => return (.error f, gathered)
  | .opened actions captures => inSequence (i.runAction room captures) actions gathered

private theorem runAction_within (i : Interpreter m) (nesting room : Nat) :
    (i.within nesting).runAction room = i.runAction room := by
  induction room with
  | zero =>
    funext args a gathered
    unfold runAction
    rfl
  | succ room ih =>
    funext args a gathered
    unfold runAction
    simp only [ih]
    rfl

variable [LawfulMonad m]

private theorem expand_bind_follow (i : Interpreter m) (concept text : String) (room : Nat)
    (noConcept noBehavior : RunError) (gathered : Bindings) :
    i.expand concept text >>= i.follow room noConcept noBehavior gathered =
      (match i.script.concept? concept with
      | none => return (.error (.action noConcept), gathered)
      | some found => do
        match ← i.chooseBehavior found text with
        | .error f => return (.error f, gathered)
        | .ok none => return (.error (.action noBehavior), gathered)
        | .ok (some (behavior, captures)) =>
          inSequence (i.runAction room captures) behavior.actions gathered) := by
  unfold expand
  cases i.script.concept? concept with
  | none => simp only [pure_bind, follow]
  | some found =>
    simp only [bind_assoc]
    congr 1
    funext choice
    rcases choice with f | _ | ⟨behavior, captures⟩
    · simp only [pure_bind, follow]
    · simp only [pure_bind, follow]
    · simp only [pure_bind, follow]

private theorem runBehavior_eq (i : Interpreter m) (concept text : String) (gathered : Bindings) :
    i.runBehavior concept text gathered = i.expand concept text >>=
      i.follow i.nesting (.unknownConcept concept) (.noMatchingBehavior concept text) gathered := by
  rw [expand_bind_follow]
  rfl

private theorem runAction_eq (i : Interpreter m) {a : Action}
    (hhandler : i.handlers.contains a.name = false) (room : Nat) (args gathered : Bindings) :
    i.runAction (room + 1) args a gathered =
      i.expand a.name (Template.fill args gathered a.text) >>=
        i.follow room (.unknown a.name (Template.fill args gathered a.text))
          (.unknown a.name (Template.fill args gathered a.text)) gathered := by
  rw [expand_bind_follow, runAction, hhandler]
  rfl

private theorem inSequence_single {α : Type} (one : α → Bindings → m RunResult) (a : α)
    (gathered : Bindings) : inSequence one [a] gathered = one a gathered := by
  simp only [inSequence]
  conv_rhs => rw [← bind_pure (one a gathered)]
  congr 1
  funext ⟨result, gathered'⟩
  cases result with
  | error f => rfl
  | ok u => rfl

private theorem runActions_single_eq (i : Interpreter m) {a : Action}
    (hhandler : i.handlers.contains a.name = false)
    (hplain : ¬ Template.opening <:+: a.text.toList) (args gathered : Bindings) :
    (i.within (i.nesting + 1)).runActions [a] args gathered = i.expand a.name a.text >>=
      i.follow i.nesting (.unknown a.name a.text) (.unknown a.name a.text) gathered := by
  have htext : Template.fill args gathered a.text = a.text := Template.fill_of_plain hplain
  have hnesting : (i.within (i.nesting + 1)).nesting = i.nesting + 1 := rfl
  rw [runActions, inSequence_single, hnesting, runAction_within, runAction_eq i hhandler, htext]

end Ways

variable {σ : Type}

private theorem runActions_within (i : Interpreter (StateM σ)) {nesting : Nat}
    (hnesting : i.nesting ≤ nesting) (actions : List Action) (args gathered : Bindings) (world : σ)
    (hends : ((i.runActions actions args gathered).run world).1.1 ≠ .error .unfinished) :
    ((i.within nesting).runActions actions args gathered).run world =
        (i.runActions actions args gathered).run world ∧
      ((i.within nesting).recorded.runActions actions args gathered).run ⟨[], world⟩ =
        (i.recorded.runActions actions args gathered).run ⟨[], world⟩ := by
  obtain ⟨turns, stop, gathered', world', hcourse, hrun, hrecorded⟩ :=
    Course.of_runActions i actions args gathered world
  have hstop : stop ≠ .cutOff := by
    rintro rfl
    rw [hrun] at hends
    exact hends rfl
  have hwide := hcourse.widen hstop hnesting
  have hroom : 0 + (i.within nesting).nesting = (i.within nesting).nesting := Nat.zero_add _
  constructor
  · rw [hrun]
    exact hwide.run hroom
  · rw [hrecorded]
    exact (hwide.recorded []).run hroom

/-- Nothing fits a text: the concept has no behavior, or the matcher answers that there is no match,
or with a pattern that is none of the concept's. -/
def NoneFits (i : Interpreter (StateM σ)) (concept : Concept) (text : String) (world : σ) : Prop :=
  concept.patterns = [] ∨
    ((i.matcher.find concept.patterns text).run world).1 = .ok none ∨
    ∃ found, ((i.matcher.find concept.patterns text).run world).1 = .ok (some found) ∧
      found.pattern ∉ concept.patterns

private theorem noneFits_iff (i : Interpreter (StateM σ)) (concept : Concept) (text : String)
    (world : σ) :
    i.NoneFits concept text world ↔ ((i.chooseBehavior concept text).run world).1 = .ok none := by
  unfold NoneFits chooseBehavior
  by_cases hpatterns : concept.patterns = []
  · have hchoose : (i.choose concept.patterns text).run world = (.ok none, world) := by
      rw [hpatterns]
      exact run_choose_nil text world
    rw [run_bind_of hchoose]
    exact iff_of_true (.inl hpatterns) rfl
  · rcases hfind : (i.matcher.find concept.patterns text).run world with ⟨answer, world'⟩
    rw [run_bind_of (run_choose hpatterns hfind)]
    rcases answer with f | _ | found
    · simp [hpatterns, chosen]
    · exact iff_of_true (.inr (.inl rfl)) rfl
    · by_cases hmem : found.pattern ∈ concept.patterns
      · obtain ⟨behavior, hbehavior⟩ := Concept.exists_behavior hmem
        have hchosen : chosen concept.patterns (.ok (some found)) = .ok (some found) := by
          simp [chosen, hmem]
        rw [hchosen]
        refine iff_of_false ?_ ?_
        · rintro (hnil | hnone | ⟨other, hother, hnot⟩)
          · exact hpatterns hnil
          · cases hnone
          · obtain rfl : found = other := Option.some.inj (Except.ok.inj hother)
            exact hnot hmem
        · simp only [hbehavior, Option.map_some]
          intro hnone
          cases hnone
      · have hchosen : chosen concept.patterns (.ok (some found)) = .ok none := by
          simp [chosen, hmem]
        rw [hchosen]
        exact iff_of_true (.inr (.inr ⟨found, rfl, hmem⟩)) rfl

/-- What comes of looking for a behavior bears out the script and the matcher. -/
private def BearsOut (i : Interpreter (StateM σ)) (concept text : String) (world : σ) : Expansion → Prop
  | .noConcept => i.script.concept? concept = none
  | .noBehavior => ∃ found, i.script.concept? concept = some found ∧ i.NoneFits found text world
  | .failed _ | .opened _ _ =>
    ∃ found, i.script.concept? concept = some found ∧ ¬ i.NoneFits found text world

private theorem bearsOut_expand (i : Interpreter (StateM σ)) (concept text : String) (world : σ) :
    i.BearsOut concept text world ((i.expand concept text).run world).1 := by
  unfold expand
  cases hconcept : i.script.concept? concept with
  | none => exact hconcept
  | some found =>
    have hnone := i.noneFits_iff found text world
    rcases hchoice : (i.chooseBehavior found text).run world with ⟨choice, world'⟩
    rw [hchoice] at hnone
    simp only
    rw [run_bind_of hchoice]
    rcases choice with f | _ | ⟨behavior, captures⟩
    · exact ⟨found, hconcept, fun h => nomatch hnone.1 h⟩
    · exact ⟨found, hconcept, hnone.2 rfl⟩
    · exact ⟨found, hconcept, fun h => nomatch hnone.1 h⟩

end Interpreter

private theorem Consults.expand {σ : Type} (i : Interpreter (StateM σ)) (concept text : String) :
    Consults (i.expand concept text) (i.recorded.expand concept text) := by
  have hscript : i.recorded.script = i.script := rfl
  unfold Interpreter.expand
  rw [hscript]
  cases i.script.concept? concept with
  | none => exact .pure _
  | some found =>
    refine bind (chooseBehavior i found text) fun choice => ?_
    rcases choice with f | _ | ⟨behavior, captures⟩
    · exact .pure _
    · exact .pure _
    · exact .pure _

namespace Interpreter

variable {σ : Type}

private theorem exists_follow (i : Interpreter (StateM σ)) (e : Expansion) (gathered : Bindings)
    (asked : List Event) (world : σ) : ∃ ended gathered' events world',
      ∀ noConcept noBehavior : RunError,
        (i.follow i.nesting noConcept noBehavior gathered e).run world =
          ((e.told noConcept noBehavior ended, gathered'), world') ∧
        (i.recorded.follow i.nesting noConcept noBehavior gathered e).run ⟨asked, world⟩ =
          ((e.told noConcept noBehavior ended, gathered'), ⟨asked ++ events, world'⟩) := by
  have hnothing : (⟨asked ++ [], world⟩ : Recorded σ) = ⟨asked, world⟩ := by rw [List.append_nil]
  cases e with
  | noConcept =>
    refine ⟨.ok (), gathered, [], world, fun _ _ => ⟨rfl, ?_⟩⟩
    rw [hnothing]
    rfl
  | noBehavior =>
    refine ⟨.ok (), gathered, [], world, fun _ _ => ⟨rfl, ?_⟩⟩
    rw [hnothing]
    rfl
  | failed f =>
    refine ⟨.ok (), gathered, [], world, fun _ _ => ⟨rfl, ?_⟩⟩
    rw [hnothing]
    rfl
  | opened actions captures =>
    obtain ⟨turns, stop, ⟨gathered', world'⟩, hcourse⟩ := Course.exists_course i i.nesting
      (Nat.le_add_left _ 0) captures actions ⟨gathered, world⟩
    refine ⟨stop.result, gathered', Turn.events turns, world', fun _ _ => ⟨?_, ?_⟩⟩
    · exact hcourse.run (Nat.zero_add _)
    · exact (hcourse.recorded asked).run (Nat.zero_add _)

/-- How the ends of the two ways into a concept correspond: they tell differently that there is no
such concept, or that nothing fits the text, and are equal otherwise. -/
inductive Corresponds (i : Interpreter (StateM σ)) (a : Action) (world : σ) :
    Except Failure Unit → Except Failure Unit → Prop
  | noConcept (hconcept : i.script.concept? a.name = none) :
      Corresponds i a world (.error (.action (.unknownConcept a.name)))
        (.error (.action (.unknown a.name a.text)))
  | noBehavior {concept : Concept} (hconcept : i.script.concept? a.name = some concept)
      (hnone : i.NoneFits concept a.text world) :
      Corresponds i a world (.error (.action (.noMatchingBehavior a.name a.text)))
        (.error (.action (.unknown a.name a.text)))
  | same {concept : Concept} (hconcept : i.script.concept? a.name = some concept)
      (hsome : ¬ i.NoneFits concept a.text world) (result : Except Failure Unit) :
      Corresponds i a world result result

private theorem Corresponds.succeeds_iff {i : Interpreter (StateM σ)} {a : Action} {world : σ}
    {direct expanded : Except Failure Unit} (h : i.Corresponds a world direct expanded) :
    direct = .ok () ↔ expanded = .ok () := by
  cases h with
  | noConcept _ => exact iff_of_false nofun nofun
  | noBehavior _ _ => exact iff_of_false nofun nofun
  | same _ _ _ => exact Iff.rfl

private theorem BearsOut.corresponds {i : Interpreter (StateM σ)} {a : Action} {world : σ}
    {e : Expansion} (h : i.BearsOut a.name a.text world e) (ended : Except Failure Unit) :
    i.Corresponds a world
      (e.told (.unknownConcept a.name) (.noMatchingBehavior a.name a.text) ended)
      (e.told (.unknown a.name a.text) (.unknown a.name a.text) ended) := by
  cases e with
  | noConcept => exact .noConcept h
  | noBehavior =>
    obtain ⟨concept, hconcept, hnone⟩ := h
    exact .noBehavior hconcept hnone
  | failed f =>
    obtain ⟨concept, hconcept, hsome⟩ := h
    exact .same hconcept hsome _
  | opened actions captures =>
    obtain ⟨concept, hconcept, hsome⟩ := h
    exact .same hconcept hsome _

/-- To ask for the behavior of a concept asks the same of the matcher and the handlers, in the same
order, and gathers the same as an action of the concept's name with that text, if no handler has the
name and no names are to be filled in; and the ends correspond. The action opens one concept more,
so that it is bounded by one more; by the same bound it does the same, or it is cut off. -/
theorem runBehavior_agrees (i : Interpreter (StateM σ)) (a : Action) (args gathered : Bindings)
    (world : σ) (hhandler : i.handlers.contains a.name = false)
    (hplain : ¬ Template.opening <:+: a.text.toList) :
    ∃ direct expanded gathered' events world',
      (i.runBehavior a.name a.text gathered).run world = ((direct, gathered'), world') ∧
      (i.recorded.runBehavior a.name a.text gathered).run ⟨[], world⟩ =
        ((direct, gathered'), ⟨events, world'⟩) ∧
      ((i.within (i.nesting + 1)).runActions [a] args gathered).run world =
        ((expanded, gathered'), world') ∧
      ((i.within (i.nesting + 1)).recorded.runActions [a] args gathered).run ⟨[], world⟩ =
        ((expanded, gathered'), ⟨events, world'⟩) ∧
      (direct = .ok () ↔ expanded = .ok ()) ∧ i.Corresponds a world direct expanded ∧
      (((i.runActions [a] args gathered).run world).1.1 ≠ .error .unfinished →
        (i.runActions [a] args gathered).run world = ((expanded, gathered'), world') ∧
        (i.recorded.runActions [a] args gathered).run ⟨[], world⟩ =
          ((expanded, gathered'), ⟨events, world'⟩)) := by
  rcases hexpand : (i.expand a.name a.text).run world with ⟨e, world₁⟩
  have hbears := i.bearsOut_expand a.name a.text world
  obtain ⟨asked, -, hconsults⟩ := Consults.expand i a.name a.text world
  have hexpand' := hconsults []
  rw [hexpand] at hbears hexpand'
  obtain ⟨ended, gathered', events, world', hfollow⟩ :=
    i.exists_follow e gathered ([] ++ asked) world₁
  obtain ⟨hdirect, hdirect'⟩ :=
    hfollow (.unknownConcept a.name) (.noMatchingBehavior a.name a.text)
  obtain ⟨hexpanded, hexpanded'⟩ := hfollow (.unknown a.name a.text) (.unknown a.name a.text)
  have hcorresponds := hbears.corresponds ended
  have hactions : ((i.within (i.nesting + 1)).runActions [a] args gathered).run world =
      ((e.told (.unknown a.name a.text) (.unknown a.name a.text) ended, gathered'), world') := by
    rw [i.runActions_single_eq hhandler hplain, run_bind_of hexpand]
    exact hexpanded
  have hactions' :
      ((i.within (i.nesting + 1)).recorded.runActions [a] args gathered).run ⟨[], world⟩ =
        ((e.told (.unknown a.name a.text) (.unknown a.name a.text) ended, gathered'),
          ⟨[] ++ asked ++ events, world'⟩) := by
    have hrecorded : (i.within (i.nesting + 1)).recorded =
        i.recorded.within (i.recorded.nesting + 1) := rfl
    rw [hrecorded, i.recorded.runActions_single_eq (not_contains_recorded hhandler) hplain,
      run_bind_of hexpand']
    exact hexpanded'
  refine ⟨_, _, gathered', _, world', ?_, ?_, hactions, hactions', hcorresponds.succeeds_iff,
    hcorresponds, fun hends => ?_⟩
  · rw [runBehavior_eq, run_bind_of hexpand]
    exact hdirect
  · rw [runBehavior_eq, run_bind_of hexpand']
    exact hdirect'
  · obtain ⟨hsame, hsame'⟩ := i.runActions_within (Nat.le_succ _) [a] args gathered world hends
    exact ⟨hsame.symm.trans hactions, hsame'.symm.trans hactions'⟩

def stranger : Interpreter (StateM Unit) :=
  { visitor with matcher := ⟨fun _ _ => return .ok (some ⟨"Ghost", Dict.empty⟩)⟩ }

theorem runBehavior_agrees_visitor :
    visitor.handlers.contains "arrive" = false ∧ stranger.handlers.contains "arrive" = false ∧
      ¬ Template.opening <:+: "with ann".toList ∧
      ((visitor.within 3).recorded.runActions [⟨"arrive", "with ann", some "[[who]]"⟩]
          (Dict.ofList [("who", "bob")]) Dict.empty).run ⟨[], ()⟩ =
        (visitor.recorded.runBehavior "arrive" "with ann" Dict.empty).run ⟨[], ()⟩ ∧
      (stranger.runBehavior "arrive" "with ann" Dict.empty).run () =
        ((.error (.action (.noMatchingBehavior "arrive" "with ann")), Dict.empty), ()) ∧
      ((stranger.within 3).runActions [⟨"arrive", "with ann", none⟩] Dict.empty Dict.empty).run () =
        ((.error (.action (.unknown "arrive" "with ann")), Dict.empty), ()) := by
  have hvisitor : visitor.handlers.contains "arrive" = false := by decide +kernel
  have hstranger : stranger.handlers.contains "arrive" = false := by decide +kernel
  have hplain : ¬ Template.opening <:+: "with ann".toList := by decide +kernel
  have harrives : ((visitor.runBehavior "arrive" "with ann" Dict.empty).run ()).1.1 = .ok () := by
    decide +kernel
  have hnobody : (stranger.runBehavior "arrive" "with ann" Dict.empty).run () =
      ((.error (.action (.noMatchingBehavior "arrive" "with ann")), Dict.empty), ()) := by
    refine Prod.ext ?_ rfl
    decide +kernel
  refine ⟨hvisitor, hstranger, hplain, ?_, hnobody, ?_⟩
  · obtain ⟨direct, expanded, gathered', events, _, hdirect, hdirect', _, hexpanded', hok, _, _⟩ :=
      runBehavior_agrees visitor ⟨"arrive", "with ann", some "[[who]]"⟩
        (Dict.ofList [("who", "bob")]) Dict.empty () hvisitor hplain
    rw [hdirect] at harrives
    have hends : expanded = direct := (hok.1 harrives).trans harrives.symm
    rw [hdirect', ← hends]
    exact hexpanded'
  · obtain ⟨direct, expanded, gathered', events, _, hdirect, _, hexpanded, _, _, hends, _⟩ :=
      runBehavior_agrees stranger ⟨"arrive", "with ann", none⟩ Dict.empty Dict.empty () hstranger
        hplain
    rw [hnobody] at hdirect
    obtain ⟨hfirst, -⟩ := Prod.mk.inj hdirect
    obtain ⟨rfl, rfl⟩ := Prod.mk.inj hfirst
    cases hends with
    | noBehavior _ _ => exact hexpanded
    | @same concept hconcept hsome _ =>
      refine absurd (.inr (.inr ⟨⟨"Ghost", Dict.empty⟩, rfl, ?_⟩)) hsome
      obtain rfl : visitor.script.concepts.head! = concept := Option.some.inj hconcept
      decide +kernel

end Interpreter
end StepScript
