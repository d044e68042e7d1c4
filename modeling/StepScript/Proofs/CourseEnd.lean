import StepScript.Proofs.Job

/-!
What a run leaves behind, and how it ends. It has gathered what it had at its start and then the
results of its successful calls, one after the other, however it ends. It ends with the first turn
that fails, and with the failure of that turn; nothing is asked after it.
-/

set_option autoImplicit false
set_option relaxedAutoImplicit false

namespace StepScript

variable {σ : Type}

/-! ## What is gathered -/

def Event.gain? : Event → Option Bindings
  | .called _ _ _ ending => ending.gain?
  | .asked _ _ _ => none

def gatheredBy (gathered : Bindings) (events : List Event) : Bindings :=
  (events.filterMap Event.gain?).foldl Dict.merge gathered

theorem gatheredBy_append (gathered : Bindings) (events events' : List Event) :
    gatheredBy gathered (events ++ events') = gatheredBy (gatheredBy gathered events) events' := by
  simp [gatheredBy]

private theorem gatheredBy_questions {events : List Event} (h : ∀ e ∈ events, e.isQuestion = true)
    (gathered : Bindings) : gatheredBy gathered events = gathered := by
  have hgains : events.filterMap Event.gain? = [] := by
    rw [List.filterMap_eq_nil_iff]
    intro e he
    have hquestion := h e he
    cases e with
    | called name text arg ending => cases hquestion
    | asked patterns text answer => rfl
  rw [gatheredBy, hgains, List.foldl_nil]

private theorem find?_foldl_merge (results : List Bindings) (gathered : Bindings) (key : String) :
    (results.foldl Dict.merge gathered).find? key =
      (results.reverse.findSome? fun result => result.find? key).or (gathered.find? key) := by
  induction results generalizing gathered with
  | nil => rfl
  | cons result results ih =>
    rw [List.foldl_cons, ih, Dict.find?_merge, List.reverse_cons, List.findSome?_append,
      Option.or_assoc]
    congr 1
    cases hresult : result.find? key <;> simp [hresult]

namespace Turn

private theorem gatheredBy_event_of_asked {t : Turn} {patterns : List String}
    {answer : Except Failure (Option Match)} (h : t.fate = .asked patterns answer)
    (gathered : Bindings) : gatheredBy gathered t.event?.toList = gathered := by
  refine gatheredBy_questions (fun e he => ?_) gathered
  obtain rfl : e = .asked patterns t.text answer := by simpa [event?, h] using he
  rfl

theorem gatheredBy_event_of_found {t : Turn} {found : Match} (h : t.found? = some found)
    (gathered : Bindings) : gatheredBy gathered t.event?.toList = gathered := by
  obtain ⟨patterns, hfate, _⟩ := fate_of_found h
  exact gatheredBy_event_of_asked hfate gathered

private theorem gatheredBy_event_of_failure {t : Turn} {f : Failure} (h : t.failure? = some f)
    (gathered : Bindings) : gatheredBy gathered t.event?.toList = gathered := by
  rcases hfate : t.fate with ending | _ | ⟨patterns, answer⟩
  · obtain ⟨words, hcomplaint, -⟩ : ∃ words, ending.complaint? = some words ∧ _ := by
      simpa [failure?, hfate] using h
    simp [gatheredBy, event?, hfate, Event.gain?, Ending.gain?_of_complaint hcomplaint]
  · simp [gatheredBy, event?, hfate]
  · exact gatheredBy_event_of_asked hfate gathered

private theorem gatheredBy_event_of_called {t : Turn} {ending : Ending}
    (hfate : t.fate = .called ending) (gathered : Bindings) :
    gatheredBy gathered t.event?.toList = gathered.merge (ending.gain?.getD Dict.empty) := by
  cases hgain : ending.gain? with
  | none =>
    have hempty : gathered.merge Dict.empty = gathered := rfl
    simp [gatheredBy, event?, hfate, Event.gain?, hgain, hempty]
  | some result => simp [gatheredBy, event?, hfate, Event.gain?, hgain]

end Turn

theorem Course.gathers {i : Interpreter (StateM σ)} {depth : Nat} {args : Bindings}
    {actions : List Action} {s s' : Moment σ} {turns : List Turn} {stop : Stop}
    (h : Course i depth args actions s turns stop s') :
    s'.gathered = gatheredBy s.gathered (Turn.events turns) := by
  induction h with
  | done => rfl
  | next _ _ ih ih' => rw [Turn.events_append, gatheredBy_append, ← ih, ih']
  | halted _ _ ih => exact ih
  | called _ hfate _ =>
    rw [Turn.events_single]
    exact (Turn.gatheredBy_event_of_called hfate _).symm
  | failed _ hfailure =>
    rw [Turn.events_single]
    exact (Turn.gatheredBy_event_of_failure hfailure _).symm
  | opened _ hfound _ _ _ ih =>
    rw [Turn.events_cons, gatheredBy_append, Turn.gatheredBy_event_of_found hfound]
    exact ih
  | cutOff _ hfound _ =>
    rw [Turn.events_single]
    exact (Turn.gatheredBy_event_of_found hfound _).symm

private theorem JobCourse.gathers {i : Interpreter (StateM σ)} {job : Job} {s s' : Moment σ}
    {turns : List Turn} {stop : Stop} (h : JobCourse i job s turns stop s') :
    s'.gathered = gatheredBy s.gathered (Turn.events turns) := by
  cases h with
  | refused _ => rfl
  | begun _ hcourse => exact hcourse.gathers

namespace Interpreter

/-- However a job ends, what is gathered then is what was gathered at its start, extended by the
results of its successful calls in their order. A later result holds where both have a name, and no
name is lost. -/
theorem perform_gathers (i : Interpreter (StateM σ)) (job : Job) (gathered : Bindings) (world : σ) :
    ∃ result gathered' world' events,
      (i.perform gathered job).run world = ((result, gathered'), world') ∧
      (i.recorded.perform gathered job).run ⟨[], world⟩ =
        ((result, gathered'), ⟨events, world'⟩) ∧
      gathered' = (events.filterMap Event.gain?).foldl Dict.merge gathered ∧
      (∀ key, gathered'.find? key =
        ((events.filterMap Event.gain?).reverse.findSome? fun gain => gain.find? key).or
          (gathered.find? key)) ∧
      ∀ key, gathered.contains key = true → gathered'.contains key = true := by
  obtain ⟨turns, stop, s', hcourse⟩ := JobCourse.exists_jobCourse i job ⟨gathered, world⟩
  obtain ⟨asked, hasked, hrecorded⟩ := hcourse.run_recorded
  have hgathered : s'.gathered = gatheredBy gathered (asked ++ Turn.events turns) := by
    rw [gatheredBy_append, gatheredBy_questions hasked]
    exact hcourse.gathers
  have hfind (key : String) := find?_foldl_merge
    ((asked ++ Turn.events turns).filterMap Event.gain?) gathered key
  refine ⟨stop.result, s'.gathered, s'.world, asked ++ Turn.events turns, hcourse.run, hrecorded,
    hgathered, ?_, ?_⟩
  · intro key
    rw [hgathered]
    exact hfind key
  · intro key hkey
    have hhad : (gathered.find? key).isSome = true := hkey
    have hfound := hfind key
    rw [hgathered, Dict.contains]
    unfold gatheredBy
    rw [hfound, Option.isSome_or, hhad, Bool.or_true]

end Interpreter

/-! ## The first failure -/

private theorem Turn.failure?_of_found {t : Turn} {found : Match} (h : t.found? = some found) :
    t.failure? = none := by
  obtain ⟨patterns, hfate, hmem⟩ := fate_of_found h
  simp [failure?, hfate, hmem]

/-- How the turns of a run bear out where it stops: none of them fails, or the last one alone. A run
that is cut off was about to open a concept too deep inside others. -/
def Stop.BorneOut (nesting : Nat) (turns : List Turn) : Stop → Prop
  | .completed => ∀ t ∈ turns, t.failure? = none
  | .failed f => ∃ before t, turns = before ++ [t] ∧ (∀ t' ∈ before, t'.failure? = none) ∧
      t.failure? = some f
  | .cutOff => ∃ before t, turns = before ++ [t] ∧ (∀ t' ∈ before, t'.failure? = none) ∧
      nesting ≤ t.depth ∧ t.found?.isSome = true

namespace Stop.BorneOut

variable {nesting : Nat} {turns turns' : List Turn} {stop : Stop}

private theorem prepend (h : BorneOut nesting turns stop) (hok : ∀ t ∈ turns', t.failure? = none) :
    BorneOut nesting (turns' ++ turns) stop := by
  have hall {before : List Turn} (hbefore : ∀ t ∈ before, t.failure? = none) :
      ∀ t ∈ turns' ++ before, t.failure? = none :=
    List.forall_mem_append.2 ⟨hok, hbefore⟩
  cases stop with
  | completed => exact hall h
  | failed f =>
    obtain ⟨before, t, rfl, hbefore, hlast⟩ := h
    exact ⟨turns' ++ before, t, (List.append_assoc ..).symm, hall hbefore, hlast⟩
  | cutOff =>
    obtain ⟨before, t, rfl, hbefore, hlast⟩ := h
    exact ⟨turns' ++ before, t, (List.append_assoc ..).symm, hall hbefore, hlast⟩

private theorem completed_or_cutOff (h : BorneOut nesting turns stop)
    (hok : ∀ t ∈ turns, t.failure? = none) :
    stop = .completed ∨ stop = .cutOff ∧ ∃ before t, turns = before ++ [t] ∧
      nesting ≤ t.depth ∧ t.found?.isSome = true := by
  cases stop with
  | completed => exact .inl rfl
  | failed f =>
    obtain ⟨before, t, rfl, _, hfailure⟩ := h
    have hnone : t.failure? = none := hok t (by simp)
    rw [hnone] at hfailure
    cases hfailure
  | cutOff =>
    obtain ⟨before, t, hturns, _, hlast⟩ := h
    exact .inr ⟨rfl, before, t, hturns, hlast⟩

private theorem eq_failed {before after : List Turn} {t : Turn} {f : Failure}
    (h : BorneOut nesting (before ++ t :: after) stop) (hfailure : t.failure? = some f) :
    stop = .failed f ∧ after = [] ∧ ∀ t' ∈ before, t'.failure? = none := by
  have hlast {before' : List Turn} {t' : Turn} (hturns : before ++ t :: after = before' ++ [t'])
      (hok : ∀ t ∈ before', t.failure? = none) : after = [] ∧ t = t' ∧ before = before' := by
    rcases List.eq_nil_or_concat after with rfl | ⟨after', t'', rfl⟩
    · obtain ⟨hbefore, ht⟩ := List.append_inj' hturns rfl
      exact ⟨rfl, List.singleton_inj.1 ht, hbefore⟩
    · -- With more behind it, the turn would be among those that go well.
      have happend : (before ++ t :: after') ++ [t''] = before' ++ [t'] := by
        simpa using hturns
      have hbefore := (List.append_inj' happend rfl).1
      have hnone := hok t (by simp [← hbefore])
      rw [hnone] at hfailure
      cases hfailure
  cases stop with
  | completed =>
    have hnone := h t (by simp)
    rw [hnone] at hfailure
    cases hfailure
  | failed g =>
    obtain ⟨before', t', hturns, hok, hg⟩ := h
    obtain ⟨hafter, rfl, rfl⟩ := hlast hturns hok
    obtain rfl : f = g := Option.some.inj (hfailure.symm.trans hg)
    exact ⟨rfl, hafter, hok⟩
  | cutOff =>
    obtain ⟨before', t', hturns, hok, _, hfound⟩ := h
    obtain ⟨_, rfl, _⟩ := hlast hturns hok
    obtain ⟨found, hfound⟩ := Option.isSome_iff_exists.1 hfound
    rw [Turn.failure?_of_found hfound] at hfailure
    cases hfailure

end Stop.BorneOut

theorem Course.borneOut {i : Interpreter (StateM σ)} {depth : Nat} {args : Bindings}
    {actions : List Action} {s s' : Moment σ} {turns : List Turn} {stop : Stop}
    (h : Course i depth args actions s turns stop s') : stop.BorneOut i.nesting turns := by
  induction h with
  | done => exact fun t ht => nomatch ht
  | next _ _ ih ih' => exact ih'.prepend ih
  | halted _ _ ih => exact ih
  | called _ _ hok => exact List.forall_mem_singleton.2 hok
  | @failed t _ _ _ _ hfailure => exact ⟨[], t, rfl, (fun _ h => nomatch h), hfailure⟩
  | opened _ hfound _ _ _ ih =>
    exact ih.prepend (List.forall_mem_singleton.2 (Turn.failure?_of_found hfound))
  | @cutOff t _ _ found _ hfound hdepth =>
    exact ⟨[], t, rfl, (fun _ h => nomatch h), hdepth, by simp [hfound]⟩

/-- A run of actions stops at the first of its turns that fails, however deep inside concepts it is:
the failure of that turn is the failure of the run, and nothing is asked after it. If no turn fails
the run is completed, or it is cut off where it opens a concept too deep inside others. -/
theorem Interpreter.runActions_stops_at_first_failure (i : Interpreter (StateM σ))
    (actions : List Action) (args gathered : Bindings) (world : σ) :
    ∃ turns stop gathered' world',
      Course i 0 args actions ⟨gathered, world⟩ turns stop ⟨gathered', world'⟩ ∧
      (i.runActions actions args gathered).run world = ((stop.result, gathered'), world') ∧
      (i.recorded.runActions actions args gathered).run ⟨[], world⟩ =
        ((stop.result, gathered'), ⟨Turn.events turns, world'⟩) ∧
      ((∀ t ∈ turns, t.failure? = none) → stop = .completed ∨
        stop = .cutOff ∧ ∃ before t, turns = before ++ [t] ∧ i.nesting ≤ t.depth ∧
          t.found?.isSome = true) ∧
      ∀ before t after f, turns = before ++ t :: after → t.failure? = some f →
        stop = .failed f ∧ after = [] ∧ ∀ t' ∈ before, t'.failure? = none := by
  obtain ⟨turns, stop, gathered', world', hcourse, hrun, hrecorded⟩ :=
    Course.of_runActions i actions args gathered world
  have hborne := hcourse.borneOut
  refine ⟨turns, stop, gathered', world', hcourse, hrun, hrecorded, hborne.completed_or_cutOff, ?_⟩
  intro before t after f hturns hfailure
  rw [hturns] at hborne
  exact hborne.eq_failed hfailure

/-- To enter is to type a name and to press a button, which fails although it has results. -/
def Interpreter.clumsy : Interpreter (StateM Unit) where
  script := ⟨[], [⟨"enter", [⟨"a name", [⟨"type", "ann", none⟩, ⟨"press", "button", none⟩]⟩]⟩], []⟩
  handlers := Dict.ofList
    [("type", fun text _ => return .finished ⟨true, some (Dict.ofList [("typed", text)]), none⟩),
      ("press", fun text _ =>
        return .finished ⟨false, some (Dict.ofList [("pressed", text)]), some "stuck"⟩)]
  matcher := ⟨fun _ _ => return .ok (some ⟨"a name", Dict.empty⟩)⟩
  nesting := 1

example :
    (Interpreter.clumsy.runActions [⟨"enter", "a name", none⟩, ⟨"type", "bob", none⟩] Dict.empty
        Dict.empty).run () =
      ((.error (.action (.failed "press" "stuck")), Dict.ofList [("typed", "ann")]), ()) := by
  cbv

end StepScript
