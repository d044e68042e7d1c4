import Mathlib.Logic.Relation
import Mathlib.Data.List.Nodup
import StepScript.Proofs.CourseEnd

/-!
How deep concepts are opened inside each other. If no concept comes back to itself by the actions of
its behaviors, those that are open around an action are different ones. So no more are open at a
time than there are, whatever the matcher answers, and a bound on the nesting that is not below
their number never cuts a run off.
-/

set_option autoImplicit false
set_option relaxedAutoImplicit false

namespace StepScript

variable {σ : Type}

namespace Interpreter

section References

variable {m : Type → Type}

def Opens (i : Interpreter m) (name : String) : Prop :=
  i.handlers.contains name = false ∧ (i.script.concept? name).isSome = true

instance (i : Interpreter m) (name : String) : Decidable (i.Opens name) :=
  inferInstanceAs (Decidable (_ ∧ _))

/-- A concept refers to another one that an action of its behaviors opens. -/
def Refers (i : Interpreter m) (name other : String) : Prop :=
  i.Opens name ∧ i.Opens other ∧ ∃ concept behavior action,
    i.script.concept? name = some concept ∧ behavior ∈ concept.behaviors ∧
      action ∈ behavior.actions ∧ action.name = other

/-- No concept comes back to itself. -/
def Acyclic (i : Interpreter m) : Prop := ∀ name, ¬ Relation.TransGen i.Refers name name

private theorem acyclic_of_rank (i : Interpreter m) (rank : String → Nat)
    (h : ∀ concept ∈ i.script.concepts, ∀ behavior ∈ concept.behaviors,
      ∀ action ∈ behavior.actions, i.Opens action.name → rank action.name < rank concept.name) :
    i.Acyclic := by
  have hstep {name other : String} (hrefers : i.Refers name other) : rank other < rank name := by
    obtain ⟨_, hopens, concept, behavior, action, hconcept, hbehavior, haction, rfl⟩ := hrefers
    have hname : concept.name = name := by simpa using List.find?_some hconcept
    rw [← hname]
    exact h concept (List.mem_of_find?_eq_some hconcept) behavior hbehavior action haction hopens
  have hpath {name other : String} (hrefers : Relation.TransGen i.Refers name other) :
      rank other < rank name := by
    induction hrefers with
    | single hrefers => exact hstep hrefers
    | tail _ hrefers ih => exact Nat.lt_trans (hstep hrefers) ih
  exact fun name hcycle => Nat.lt_irrefl _ (hpath hcycle)

def within (i : Interpreter m) (nesting : Nat) : Interpreter m := { i with nesting := nesting }

end References

/-! ## Concepts around an action -/

/-- These concepts can be open around these actions, the outermost last: they are different, and
each of them leads to whatever is opened next. -/
structure Around (i : Interpreter (StateM σ)) (path : List String) (actions : List Action) :
    Prop where
  nodup : path.Nodup
  known : ∀ name ∈ path, (i.script.concept? name).isSome = true
  leads : ∀ name ∈ path, i.Opens name → ∀ a ∈ actions, i.Opens a.name →
    Relation.TransGen i.Refers name a.name

namespace Around

variable {i : Interpreter (StateM σ)} {path : List String} {actions : List Action}

private theorem nil (i : Interpreter (StateM σ)) (actions : List Action) : i.Around [] actions :=
  ⟨.nil, (fun _ h => nomatch h), fun _ h => nomatch h⟩

private theorem single {name : String} {concept : Concept} {behavior : Behavior}
    (hconcept : i.script.concept? name = some concept) (hbehavior : behavior ∈ concept.behaviors) :
    i.Around [name] behavior.actions := by
  refine ⟨List.nodup_singleton name, ?_, ?_⟩
  · intro other hother
    rw [List.mem_singleton.1 hother, hconcept]
    rfl
  · intro other hother hopens a ha ha'
    obtain rfl := List.mem_singleton.1 hother
    exact .single ⟨hopens, ha', concept, behavior, a, hconcept, hbehavior, ha, rfl⟩

private theorem mono (h : i.Around path actions) {actions' : List Action}
    (hsub : ∀ a ∈ actions', a ∈ actions) : i.Around path actions' where
  nodup := h.nodup
  known := h.known
  leads name hname hopens a ha := h.leads name hname hopens a (hsub a ha)

private theorem head {a : Action} {rest : List Action} (h : i.Around path (a :: rest)) :
    i.Around path [a] :=
  h.mono fun _ hb => List.mem_cons.2 (.inl (List.mem_singleton.1 hb))

private theorem tail {a : Action} {rest : List Action} (h : i.Around path (a :: rest)) :
    i.Around path rest :=
  h.mono fun _ hb => List.mem_cons_of_mem a hb

private theorem length_le (h : i.Around path actions) : path.length ≤ i.script.concepts.length := by
  have hsub : path ⊆ i.script.concepts.map Concept.name := by
    intro name hname
    obtain ⟨concept, hconcept⟩ := Option.isSome_iff_exists.1 (h.known name hname)
    have heq : concept.name = name := by simpa using List.find?_some hconcept
    exact List.mem_map.2 ⟨concept, List.mem_of_find?_eq_some hconcept, heq⟩
  simpa using h.nodup.length_le_of_subset hsub

private theorem not_mem (h : i.Around path actions) (hacyclic : i.Acyclic) {a : Action}
    (ha : a ∈ actions) (hopens : i.Opens a.name) : a.name ∉ path :=
  fun hmem => hacyclic a.name (h.leads a.name hmem hopens a ha hopens)

private theorem extend (h : i.Around path actions) (hacyclic : i.Acyclic) {a : Action}
    (ha : a ∈ actions) (hopens : i.Opens a.name) {concept : Concept} {behavior : Behavior}
    (hconcept : i.script.concept? a.name = some concept) (hbehavior : behavior ∈ concept.behaviors) :
    i.Around (a.name :: path) behavior.actions := by
  have hinner := single hconcept hbehavior
  refine ⟨List.nodup_cons.2 ⟨h.not_mem hacyclic ha hopens, h.nodup⟩, ?_, ?_⟩
  · intro name hname
    rcases List.mem_cons.1 hname with rfl | hname
    · exact hopens.2
    · exact h.known name hname
  · intro name hname hname' b hb hb'
    have hlast : i.Refers a.name b.name :=
      ⟨hopens, hb', concept, behavior, b, hconcept, hbehavior, hb, rfl⟩
    rcases List.mem_cons.1 hname with rfl | hname
    · exact .single hlast
    · exact (h.leads name hname hname' a ha hopens).tail hlast

end Around
end Interpreter

/-! ## The bound -/

private theorem Turn.Occurs.opens {i : Interpreter (StateM σ)} {t : Turn} {world world' : σ}
    {found : Match}
    {behavior : Behavior} (h : t.Occurs i world world') (hfound : t.found? = some found)
    (hbehavior : i.behaviorFor t.action.name found.pattern = some behavior) :
    i.Opens t.action.name ∧ ∃ concept, i.script.concept? t.action.name = some concept ∧
      behavior ∈ concept.behaviors := by
  obtain ⟨hhandler, _, _⟩ := h.of_found hfound
  obtain ⟨concept, hconcept, hfind⟩ : ∃ concept, i.script.concept? t.action.name = some concept ∧
      concept.behavior? found.pattern = some behavior := Option.bind_eq_some_iff.1 hbehavior
  have hopens : i.Opens t.action.name :=
    ⟨Interpreter.not_contains_of_find? hhandler, by rw [hconcept]; rfl⟩
  exact ⟨hopens, concept, hconcept, List.mem_of_find?_eq_some hfind⟩

namespace Course

variable {i : Interpreter (StateM σ)} {depth : Nat} {args : Bindings} {actions : List Action}
  {s s' : Moment σ} {turns : List Turn} {stop : Stop} {path : List String}

private theorem nested_le_single {t : Turn} {world world' : σ} (h : t.Occurs i world world')
    (hacyclic : i.Acyclic) (haround : i.Around path [t.action]) (hfound : t.found?.isSome = true) :
    t.depth + 1 + path.length ≤ t.depth + i.script.concepts.length := by
  obtain ⟨found, hfound⟩ := Option.isSome_iff_exists.1 hfound
  obtain ⟨behavior, hbehavior⟩ := h.exists_behavior hfound
  obtain ⟨hopens, concept, hconcept, hmem⟩ := h.opens hfound hbehavior
  have hinside := haround.extend hacyclic (List.mem_singleton.2 rfl) hopens hconcept hmem
  have hle := hinside.length_le
  rw [List.length_cons] at hle
  omega

private theorem nested_le (h : Course i depth args actions s turns stop s') (hacyclic : i.Acyclic)
    (haround : i.Around path actions) : ∀ t ∈ turns, t.found?.isSome = true →
      t.depth + 1 + path.length ≤ depth + i.script.concepts.length := by
  induction h generalizing path with
  | done => exact fun _ ht => nomatch ht
  | next _ _ ih ih' => exact List.forall_mem_append.2 ⟨ih haround.head, ih' haround.tail⟩
  | halted _ _ ih => exact ih haround.head
  | called hoccurs _ _ =>
    exact List.forall_mem_singleton.2 (nested_le_single hoccurs hacyclic haround)
  | failed hoccurs _ =>
    exact List.forall_mem_singleton.2 (nested_le_single hoccurs hacyclic haround)
  | opened hoccurs hfound hbehavior _ _ ih =>
    -- Inside, one concept more is around, and it is none of the others.
    obtain ⟨hopens, concept, hconcept, hmem⟩ := hoccurs.opens hfound hbehavior
    have hinside := haround.extend hacyclic (List.mem_singleton.2 rfl) hopens hconcept hmem
    have hopener := nested_le_single hoccurs hacyclic haround
    refine List.forall_mem_cons.2 ⟨hopener, fun t ht hfound' => ?_⟩
    have hle := ih hinside t ht hfound'
    rw [List.length_cons] at hle
    omega
  | cutOff hoccurs _ _ =>
    exact List.forall_mem_singleton.2 (nested_le_single hoccurs hacyclic haround)

private theorem not_cutOff (h : Course i 0 args actions s turns stop s') (hacyclic : i.Acyclic)
    (haround : i.Around path actions) (hnesting : i.script.concepts.length ≤ i.nesting) :
    stop ≠ .cutOff := by
  rintro rfl
  obtain ⟨before, t, hturns, _, hdepth, hfound⟩ := h.borneOut
  have hle := h.nested_le hacyclic haround t (by simp [hturns]) hfound
  omega

/-- A larger bound on the nesting makes no difference to a run that is not cut off. -/
theorem widen (h : Course i depth args actions s turns stop s') (hstop : stop ≠ .cutOff)
    {nesting : Nat} (hnesting : i.nesting ≤ nesting) :
    Course (i.within nesting) depth args actions s turns stop s' := by
  have wider {t : Turn} {world world' : σ} (hoccurs : t.Occurs i world world') :
      t.Occurs (i.within nesting) world world' := by
    cases hoccurs with
    | called hhandler hrun hfate => exact .called hhandler hrun hfate
    | unheard hhandler hpatterns hfate => exact .unheard hhandler hpatterns hfate
    | asked hhandler hpatterns hrun hfate => exact .asked hhandler hpatterns hrun hfate
  induction h with
  | done => exact .done
  | next _ _ ih ih' => exact .next (ih nofun) (ih' hstop)
  | halted _ hhalted ih => exact .halted (ih hstop) hhalted
  | called hoccurs hfate hok => exact .called (wider hoccurs) hfate hok
  | failed hoccurs hfailure => exact .failed (wider hoccurs) hfailure
  | opened hoccurs hfound hbehavior hdepth _ ih =>
    exact .opened (wider hoccurs) hfound hbehavior (Nat.lt_of_lt_of_le hdepth hnesting) (ih hstop)
  | cutOff _ _ _ => exact absurd rfl hstop

end Course

/-! ## Jobs -/

def Job.opened : Job → Nat
  | .actions _ _ | .step _ => 0
  | .behavior _ _ => 1

namespace Interpreter

variable {i : Interpreter (StateM σ)}

private theorem mem_of_chooseBehavior {concept : Concept} {text : String} {behavior : Behavior}
    {captures : Bindings} {world world' : σ}
    (h : (i.chooseBehavior concept text).run world = (.ok (some (behavior, captures)), world')) :
    behavior ∈ concept.behaviors := by
  rcases hchoose : (i.choose concept.patterns text).run world with ⟨choice, world''⟩
  unfold chooseBehavior at h
  rw [run_bind_of hchoose] at h
  rcases choice with f | _ | found
  · cases h
  · cases h
  · have hmap : (concept.behavior? found.pattern).map (fun b => (b, found.captures)) =
        some (behavior, captures) := Except.ok.inj (Prod.mk.inj h).1
    obtain ⟨chosen, hchosen, hpair⟩ := Option.map_eq_some_iff.1 hmap
    obtain rfl : chosen = behavior := (Prod.mk.inj hpair).1
    exact List.mem_of_find?_eq_some hchosen

private theorem around_of_opening {job : Job} {world world' : σ} {actions : List Action}
    {args : Bindings} (h : (i.opening job).run world = (.ok (actions, args), world')) :
    ∃ path, i.Around path actions ∧ path.length = job.opened := by
  cases job with
  | actions _ _ => exact ⟨[], .nil i actions, rfl⟩
  | step _ => exact ⟨[], .nil i actions, rfl⟩
  | behavior name text =>
    cases hconcept : i.script.concept? name with
    | none =>
      simp only [opening, hconcept] at h
      cases h
    | some concept =>
      rcases hchoose : (i.chooseBehavior concept text).run world with ⟨choice, world''⟩
      simp only [opening, hconcept] at h
      rw [run_bind_of hchoose] at h
      rcases choice with f | _ | ⟨behavior, captures⟩
      · cases h
      · cases h
      · obtain ⟨rfl, rfl⟩ := Prod.mk.inj (Except.ok.inj (Prod.mk.inj h).1)
        exact ⟨[name], .single hconcept (mem_of_chooseBehavior hchoose), rfl⟩

end Interpreter

namespace JobCourse

variable {i : Interpreter (StateM σ)} {job : Job} {s s' : Moment σ} {turns : List Turn}
  {stop : Stop}

private theorem nested_le (h : JobCourse i job s turns stop s') (hacyclic : i.Acyclic) :
    ∀ t ∈ turns, t.found?.isSome = true →
      job.opened + t.depth + 1 ≤ i.script.concepts.length := by
  cases h with
  | refused _ => exact fun _ ht => nomatch ht
  | begun hopening hcourse =>
    obtain ⟨path, haround, hlength⟩ := Interpreter.around_of_opening hopening
    intro t ht hfound
    have hle := hcourse.nested_le hacyclic haround t ht hfound
    omega

private theorem not_cutOff (h : JobCourse i job s turns stop s') (hacyclic : i.Acyclic)
    (hnesting : i.script.concepts.length ≤ i.nesting) : stop ≠ .cutOff := by
  cases h with
  | refused _ => exact nofun
  | begun hopening hcourse =>
    obtain ⟨path, haround, _⟩ := Interpreter.around_of_opening hopening
    exact hcourse.not_cutOff hacyclic haround hnesting

private theorem widen (h : JobCourse i job s turns stop s') (hstop : stop ≠ .cutOff) {nesting : Nat}
    (hnesting : i.nesting ≤ nesting) : JobCourse (i.within nesting) job s turns stop s' := by
  cases h with
  | refused hopening => exact .refused hopening
  | begun hopening hcourse => exact .begun hopening (hcourse.widen hstop hnesting)

end JobCourse

/-- If no concept comes back to itself, every job ends, and no more concepts are open at a time than
the script has. It asks the same few things whatever bound is put on the nesting, if that is not
below the number of concepts. -/
theorem Interpreter.perform_ends_of_acyclic (i : Interpreter (StateM σ)) (hacyclic : i.Acyclic)
    (job : Job) (gathered : Bindings) (world : σ) :
    ∃ turns stop gathered' world' events, stop ≠ .cutOff ∧
      (∀ t ∈ turns, t.found?.isSome = true →
        job.opened + t.depth + 1 ≤ i.script.concepts.length) ∧
      ∀ nesting, i.script.concepts.length ≤ nesting →
        JobCourse (i.within nesting) job ⟨gathered, world⟩ turns stop ⟨gathered', world'⟩ ∧
        ((i.within nesting).perform gathered job).run world = ((stop.result, gathered'), world') ∧
        ((i.within nesting).recorded.perform gathered job).run ⟨[], world⟩ =
          ((stop.result, gathered'), ⟨events, world'⟩) := by
  let narrow := i.within i.script.concepts.length
  obtain ⟨turns, stop, ⟨gathered', world'⟩, hnarrow⟩ :=
    JobCourse.exists_jobCourse narrow job ⟨gathered, world⟩
  obtain ⟨asked, _, hrecorded⟩ := hnarrow.recorded
  have hstop : stop ≠ .cutOff := hnarrow.not_cutOff hacyclic (Nat.le_refl _)
  refine ⟨turns, stop, gathered', world', asked ++ Turn.events turns, hstop,
    hnarrow.nested_le hacyclic, fun nesting hnesting => ?_⟩
  have hwide : JobCourse (i.within nesting) job ⟨gathered, world⟩ turns stop ⟨gathered', world'⟩ :=
    hnarrow.widen hstop hnesting
  have hwide' : JobCourse (i.within nesting).recorded job ⟨gathered, ⟨[], world⟩⟩ turns stop
      ⟨gathered', ⟨asked ++ Turn.events turns, world'⟩⟩ :=
    hrecorded.widen hstop hnesting
  exact ⟨hwide, hwide.run, hwide'.run⟩

def visitor : Interpreter (StateM Unit) where
  script := ⟨[], [
    ⟨"arrive", [⟨"with [[user]]", [⟨"login", "[[user]]", none⟩]⟩]⟩,
    ⟨"login", [⟨"as [[user]]", [⟨"type", "[[user]]", none⟩]⟩]⟩], []⟩
  handlers := Dict.ofList [("type", fun _ _ => return .finished .ok)]
  matcher := ⟨fun patterns text =>
    return .ok (some ⟨patterns.headD "", Dict.ofList [("user", text)]⟩)⟩
  nesting := 2

private theorem acyclic_visitor : visitor.Acyclic :=
  visitor.acyclic_of_rank (fun name => if name = "arrive" then 1 else 0) (by decide +kernel)

theorem perform_ends_visitor :
    visitor.Acyclic ∧ ∃ turns stop gathered' world' events, stop ≠ .cutOff ∧
      (∀ t ∈ turns, t.found?.isSome = true → t.depth + 2 ≤ 2) ∧
      ∀ nesting, 2 ≤ nesting →
        JobCourse (visitor.within nesting) (.behavior "arrive" "with ann") ⟨Dict.empty, ()⟩ turns
          stop ⟨gathered', world'⟩ ∧
        ((visitor.within nesting).perform Dict.empty (.behavior "arrive" "with ann")).run () =
          ((stop.result, gathered'), world') ∧
        ((visitor.within nesting).recorded.perform Dict.empty
          (.behavior "arrive" "with ann")).run ⟨[], ()⟩ =
            ((stop.result, gathered'), ⟨events, world'⟩) := by
  refine ⟨acyclic_visitor, ?_⟩
  obtain ⟨turns, stop, gathered', world', events, hstop, hdepth, hends⟩ :=
    visitor.perform_ends_of_acyclic acyclic_visitor (.behavior "arrive" "with ann") Dict.empty ()
  refine ⟨turns, stop, gathered', world', events, hstop, fun t ht hfound => ?_, hends⟩
  have hle : 1 + t.depth + 1 ≤ 2 := hdepth t ht hfound
  omega

end StepScript
