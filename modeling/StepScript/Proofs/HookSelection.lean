import StepScript.Proofs.Recording
import StepScript.Session

/-!
Which hooks run. A tag expression says something of the tags of a scenario, and depends on no tags
but those it mentions. The hooks of a phase run as one list of actions: those of each hook whose
expression holds, in their order, with nothing done differently where one hook ends and the next
begins.
-/

set_option autoImplicit false
set_option relaxedAutoImplicit false

namespace StepScript

namespace Selector

/-- What an expression says of a scenario with some tags. -/
def Holds (tags : List String) : Selector → Prop
  | .any => True
  | .tag text => text ∈ tags
  | .not inner => ¬ inner.Holds tags
  | .and left right => left.Holds tags ∧ right.Holds tags
  | .or left right => left.Holds tags ∨ right.Holds tags

private theorem accepts_iff_holds {tags : List String} {e : Selector} :
    e.accepts tags = true ↔ e.Holds tags := by
  induction e with
  | any => exact iff_of_true rfl trivial
  | tag text => exact List.contains_iff_mem
  | not inner ih => rw [accepts, Holds, ← ih, Bool.not_eq_true', Bool.not_eq_true]
  | and left right ihl ihr => rw [accepts, Holds, ← ihl, ← ihr, Bool.and_eq_true]
  | or left right ihl ihr => rw [accepts, Holds, ← ihl, ← ihr, Bool.or_eq_true]

instance (tags : List String) (e : Selector) : Decidable (e.Holds tags) :=
  decidable_of_iff _ accepts_iff_holds

def Mentions (tag : String) : Selector → Prop
  | .any => False
  | .tag text => text = tag
  | .not inner => inner.Mentions tag
  | .and left right | .or left right => left.Mentions tag ∨ right.Mentions tag

private theorem holds_congr {tags tags' : List String} {e : Selector}
    (h : ∀ tag, e.Mentions tag → (tag ∈ tags' ↔ tag ∈ tags)) : e.Holds tags' ↔ e.Holds tags := by
  induction e with
  | any => exact Iff.rfl
  | tag text => exact h text rfl
  | not inner ih => exact not_congr (ih h)
  | and left right ihl ihr =>
    have hleft := ihl fun tag hmentions => h tag (.inl hmentions)
    have hright := ihr fun tag hmentions => h tag (.inr hmentions)
    exact and_congr hleft hright
  | or left right ihl ihr =>
    have hleft := ihl fun tag hmentions => h tag (.inl hmentions)
    have hright := ihr fun tag hmentions => h tag (.inr hmentions)
    exact or_congr hleft hright

end Selector

namespace Script

/-- The hooks of a phase whose expressions hold of a scenario with some tags. -/
def chosenHooks (script : Script) (phase : Phase) (tags : List String) : List Hook :=
  script.hooks.filter fun h => h.phase = phase ∧ h.selector.Holds tags

private theorem hooksAt_eq (script : Script) (phase : Phase) (tags : List String) :
    script.hooksAt phase tags = script.chosenHooks phase tags := by
  unfold hooksAt chosenHooks
  refine List.filter_congr fun h _ => ?_
  rw [Bool.eq_iff_iff, Bool.and_eq_true, beq_iff_eq, Selector.accepts_iff_holds, decide_eq_true_iff]

private theorem chosenHooks_congr {script : Script} {phase : Phase} {tags tags' : List String}
    (h : ∀ hook ∈ script.hooks, hook.phase = phase → ∀ tag, hook.selector.Mentions tag →
      (tag ∈ tags' ↔ tag ∈ tags)) :
    script.chosenHooks phase tags' = script.chosenHooks phase tags := by
  refine List.filter_congr fun hook hmem => ?_
  have hsame : hook.phase = phase ∧ hook.selector.Holds tags' ↔
      hook.phase = phase ∧ hook.selector.Holds tags :=
    and_congr_right fun hphase => Selector.holds_congr (h hook hmem hphase)
  exact decide_eq_decide.2 hsame

end Script

namespace Interpreter

section Sequences

variable {m : Type → Type} [Monad m] [LawfulMonad m] {α β : Type}

private theorem inSequence_append (one : α → Bindings → m RunResult) (items more : List α)
    (gathered : Bindings) :
    inSequence one (items ++ more) gathered = (do
      match ← inSequence one items gathered with
      | (.error f, gathered) => return (.error f, gathered)
      | (.ok (), gathered) => inSequence one more gathered) := by
  induction items generalizing gathered with
  | nil => simp only [List.nil_append, inSequence, pure_bind]
  | cons a items ih =>
    simp only [List.cons_append, inSequence, bind_assoc]
    congr 1
    funext outcome
    obtain ⟨result, gathered'⟩ := outcome
    cases result with
    | error f => simp only [pure_bind]
    | ok u => exact ih gathered'

private theorem inSequence_flatMap (one : α → Bindings → m RunResult) (parts : β → List α)
    (items : List β) (gathered : Bindings) :
    inSequence (fun b gathered => inSequence one (parts b) gathered) items gathered =
      inSequence one (items.flatMap parts) gathered := by
  induction items generalizing gathered with
  | nil => rfl
  | cons b items ih =>
    rw [List.flatMap_cons, inSequence_append, inSequence]
    congr 1
    funext outcome
    obtain ⟨result, gathered'⟩ := outcome
    cases result with
    | error f => rfl
    | ok u => exact ih gathered'

private theorem runHooks_eq (i : Interpreter m) (phase : Phase) (tags : List String)
    (gathered : Bindings) :
    i.runHooks phase tags gathered = i.runActions
      ((i.script.chosenHooks phase tags).flatMap Hook.actions) Dict.empty gathered := by
  unfold runHooks runActions
  rw [Script.hooksAt_eq]
  exact inSequence_flatMap _ Hook.actions _ gathered

end Sequences
end Interpreter

namespace Session

variable {σ : Type}

/-- The hooks of a phase run as one list of actions without arguments: the actions of all hooks of
the phase whose expressions hold, in their order. And no tags matter but those that the hooks of the
phase mention; neither does their order, nor how often one is given. -/
theorem runHooks_eq_runActions (s : Session (StateM σ)) (phase : Phase) (tags : List String)
    (world : σ) :
    ((s.runHooks phase tags).run world =
        (s.runActions ((s.interpreter.script.chosenHooks phase tags).flatMap Hook.actions)
          Dict.empty).run world ∧
      (s.interpreter.recorded.runHooks phase tags s.gathered).run ⟨[], world⟩ =
        (s.interpreter.recorded.runActions
          ((s.interpreter.script.chosenHooks phase tags).flatMap Hook.actions)
          Dict.empty s.gathered).run ⟨[], world⟩) ∧
    ∀ tags' : List String,
      (∀ hook ∈ s.interpreter.script.hooks, hook.phase = phase →
        ∀ tag, hook.selector.Mentions tag → (tag ∈ tags' ↔ tag ∈ tags)) →
      (s.runHooks phase tags').run world = (s.runHooks phase tags).run world ∧
      (s.interpreter.recorded.runHooks phase tags' s.gathered).run ⟨[], world⟩ =
        (s.interpreter.recorded.runHooks phase tags s.gathered).run ⟨[], world⟩ := by
  have hrun (tags : List String) : s.runHooks phase tags =
      s.runActions ((s.interpreter.script.chosenHooks phase tags).flatMap Hook.actions)
        Dict.empty := by
    unfold runHooks runActions run
    simp only [Interpreter.runHooks_eq]
  have hscript : s.interpreter.recorded.script = s.interpreter.script := rfl
  have hrecorded (tags : List String) := s.interpreter.recorded.runHooks_eq phase tags s.gathered
  rw [hscript] at hrecorded
  refine ⟨⟨by rw [hrun], by rw [hrecorded]⟩, fun tags' htags => ?_⟩
  have hchosen := Script.chosenHooks_congr htags
  constructor
  · rw [hrun, hrun, hchosen]
  · rw [hrecorded, hrecorded, hchosen]

def hooked : Session (StateM Unit) :=
  .new .default
    ⟨⟨[], [], [
      ⟨.before, "@ui and not @slow", .and (.tag "@ui") (.not (.tag "@slow")),
        [⟨"type", "ann", none⟩]⟩,
      ⟨.after, "@new", .tag "@new", [⟨"type", "bye", none⟩]⟩,
      ⟨.before, "", .any, [⟨"type", "bob", none⟩, ⟨"leave", "now", none⟩]⟩]⟩,
    Dict.ofList [("type", fun _ _ => return .finished .ok)], ⟨fun _ _ => return .ok none⟩, 1⟩

theorem runHooks_eq_runActions_hooked :
    (∀ hook ∈ hooked.interpreter.script.hooks, hook.phase = .before →
      ∀ tag, hook.selector.Mentions tag →
        (tag ∈ ["@new", "@a", "@ui", "@ui"] ↔ tag ∈ ["@ui", "@a"])) ∧
      (hooked.runHooks .before ["@new", "@a", "@ui", "@ui"]).run () =
        (hooked.runActions [⟨"type", "ann", none⟩, ⟨"type", "bob", none⟩, ⟨"leave", "now", none⟩]
          Dict.empty).run () := by
  have htags : ∀ hook ∈ hooked.interpreter.script.hooks, hook.phase = .before →
      ∀ tag, hook.selector.Mentions tag →
        (tag ∈ ["@new", "@a", "@ui", "@ui"] ↔ tag ∈ ["@ui", "@a"]) := by
    intro hook hmem hphase tag hmentions
    have hcases : tag = "@ui" ∨ tag = "@slow" := by
      simp only [hooked, new, List.mem_cons, List.not_mem_nil, or_false] at hmem
      rcases hmem with rfl | rfl | rfl
      · exact hmentions.imp Eq.symm Eq.symm
      · cases hphase
      · exact hmentions.elim
    rcases hcases with rfl | rfl
    · decide
    · decide
  obtain ⟨⟨hruns, -⟩, hsame⟩ := runHooks_eq_runActions hooked .before ["@ui", "@a"] ()
  have hactions : (hooked.interpreter.script.chosenHooks .before ["@ui", "@a"]).flatMap
      Hook.actions =
        [⟨"type", "ann", none⟩, ⟨"type", "bob", none⟩, ⟨"leave", "now", none⟩] := by
    decide +kernel
  rw [hactions] at hruns
  exact ⟨htags, (hsame _ htags).1.trans hruns⟩

end Session
end StepScript
