import StepScript.CommandLine
import StepScript.Proofs.CacheStore
import StepScript.Proofs.CourseEnd

/-!
The match that the command line reports, and the step that a run would select for the same text. The
command reports every answer of the matcher, while a run takes an answer that is none of the
patterns for no match, and does not ask at all when there are no patterns. So the two agree just when
the matcher keeps to the patterns, and does not fail where there are none.
-/

set_option autoImplicit false
set_option relaxedAutoImplicit false

namespace StepScript

variable {σ : Type}

/-! ## Failures of a matcher -/

namespace Matcher

private def FailsInChat (finder : Matcher (StateM σ)) : Prop :=
  ∀ patterns text world f, ((finder.find patterns text).run world).1 = .error f → ∃ e, f = .chat e

private theorem failsInChat_ofModel (model : ChatModel (StateM σ)) (instructions : String) :
    (ofModel model instructions).FailsInChat := by
  intro patterns text world f h
  unfold ofModel at h
  rcases hask : (model.ask [.system instructions, .user (question patterns text)] []).run world
    with ⟨e | reply, world'⟩
  · simp only [run_bind_of hask] at h
    cases h
    exact ⟨e, rfl⟩
  · simp only [run_bind_of hask] at h
    cases hreply : Match.ofReply (reply.content.getD "") with
    | error e =>
      rw [hreply] at h
      cases h
      exact ⟨e, rfl⟩
    | ok found =>
      rw [hreply] at h
      cases h

private theorem FailsInChat.cached {inner : Matcher (StateM σ)} (h : inner.FailsInChat)
    (cache : Cache) (files : FileAccess (StateM σ)) (scope : String) :
    (inner.cached cache files scope).FailsInChat := by
  intro patterns text world f herror
  unfold Matcher.cached at herror
  rcases hread : (remembered cache files scope (key patterns text)).run world
    with ⟨_ | found, world'⟩
  · simp only [run_bind_of hread] at herror
    exact h patterns text world' f herror
  · simp only [run_bind_of hread] at herror
    cases herror

end Matcher

private theorem CommandLine.failsInChat_matcher (w : World (StateM σ)) (c : Settings)
    (noCache : Bool) :
    (matcher w c noCache).FailsInChat := by
  have hmodel := Matcher.failsInChat_ofModel
    (Completion.model (Service.ofEnvironment w.environment) w.send) Matcher.instructions
  unfold matcher Settings.matcher
  split
  · exact hmodel.cached _ _ _
  · exact hmodel

/-! ## The step that a text selects -/

private theorem Course.exists_failing_turn {i : Interpreter (StateM σ)} {depth : Nat}
    {args : Bindings} {actions : List Action} {s s' : Moment σ} {turns : List Turn} {stop : Stop}
    (h : Course i depth args actions s turns stop s') {f : Failure} (hstop : stop = .failed f) :
    ∃ (t : Turn) (world world' : σ), t.Occurs i world world' ∧ t.failure? = some f := by
  induction h with
  | done => cases hstop
  | next _ _ _ ih => exact ih hstop
  | halted _ _ ih => exact ih hstop
  | called _ _ _ => cases hstop
  | failed hoccurs hfailure =>
    cases hstop
    exact ⟨_, _, _, hoccurs, hfailure⟩
  | opened _ _ _ _ _ ih => exact ih hstop
  | cutOff _ _ _ => cases hstop

private theorem Turn.failure_ne_stepNotFound {i : Interpreter (StateM σ)}
    (hfails : i.matcher.FailsInChat)
    {t : Turn} {world world' : σ} (hoccurs : t.Occurs i world world') (text : String) :
    t.failure? ≠ some (.action (.stepNotFound text)) := by
  intro hfailure
  cases hoccurs with
  | called _ _ hfate =>
    simp only [failure?, hfate] at hfailure
    obtain ⟨words, -, ⟨⟩⟩ := Option.map_eq_some_iff.1 hfailure
  | unheard _ _ hfate =>
    simp only [failure?, hfate] at hfailure
    cases hfailure
  | @asked answer _ _ _ _ hrun hfate =>
    simp only [failure?, hfate] at hfailure
    rcases answer with f | _ | found
    · obtain ⟨e, rfl⟩ := hfails _ _ _ f (by rw [hrun])
      cases hfailure
    · cases hfailure
    · simp only at hfailure
      split at hfailure <;> cases hfailure

namespace Interpreter

/-- A text selects a step, which is run with some captures. -/
structure Selects (i : Interpreter (StateM σ)) (text : String) (world : σ) (step : Step)
    (captures : Bindings) (world' : σ) : Prop where
  chosen : (i.choose i.script.stepPatterns text).run world =
    (.ok (some ⟨step.pattern, captures⟩), world')
  first : i.script.step? step.pattern = some step
  runs : ∀ gathered, (i.runStep text gathered).run world =
    (i.runActions step.actions captures gathered).run world'

variable {i : Interpreter (StateM σ)} {text : String} {world world' : σ} {step : Step}
  {captures : Bindings}

private theorem Selects.of_choose (hchosen : (i.choose i.script.stepPatterns text).run world =
      (.ok (some ⟨step.pattern, captures⟩), world'))
    (hfirst : i.script.step? step.pattern = some step) :
    i.Selects text world step captures world' where
  chosen := hchosen
  first := hfirst
  runs gathered := by
    unfold runStep
    rw [run_bind_of hchosen]
    simp only [hfirst]

private theorem exists_selects {found : Match}
    (hfind : (i.matcher.find i.script.stepPatterns text).run world = (.ok (some found), world'))
    (hmem : found.pattern ∈ i.script.stepPatterns) :
    ∃ step, step.pattern = found.pattern ∧ i.Selects text world step found.captures world' := by
  obtain ⟨s, hs, hpattern⟩ := List.mem_map.1 hmem
  cases hfirst : i.script.step? found.pattern with
  | none =>
    have hnone := List.find?_eq_none.1 hfirst s hs
    simp [hpattern] at hnone
  | some step =>
    have heq : step.pattern = found.pattern := by simpa using List.find?_some hfirst
    have hchosen := run_choose (List.ne_nil_of_mem hmem) hfind
    rw [chosen, if_pos hmem] at hchosen
    obtain ⟨pattern, captures⟩ := found
    obtain rfl : step.pattern = pattern := heq
    exact ⟨step, rfl, .of_choose hchosen hfirst⟩

private theorem Selects.ne_stepNotFound (h : i.Selects text world step captures world')
    (hfails : i.matcher.FailsInChat) (gathered : Bindings) :
    ((i.runStep text gathered).run world).1.1 ≠ .error (.action (.stepNotFound text)) := by
  obtain ⟨turns, stop, gathered', world'', hcourse, hrun, -⟩ :=
    Course.of_runActions i step.actions captures gathered world'
  rw [h.runs, hrun]
  intro hresult
  cases stop with
  | completed => cases hresult
  | cutOff => cases hresult
  | failed f =>
    obtain rfl : f = .action (.stepNotFound text) := Except.error.inj hresult
    obtain ⟨t, _, _, hoccurs, hfailure⟩ := hcourse.exists_failing_turn rfl
    exact Turn.failure_ne_stepNotFound hfails hoccurs text hfailure

private theorem runStep_of_choose_none
    (h : (i.choose i.script.stepPatterns text).run world = (.ok none, world'))
    (gathered : Bindings) : (i.runStep text gathered).run world =
      ((.error (.action (.stepNotFound text)), gathered), world') := by
  unfold runStep
  rw [run_bind_of h]
  rfl

private theorem runStep_of_choose_error {f : Failure}
    (h : (i.choose i.script.stepPatterns text).run world = (.error f, world'))
    (gathered : Bindings) :
    (i.runStep text gathered).run world = ((.error f, gathered), world') := by
  unfold runStep
  rw [run_bind_of h]
  rfl

end Interpreter

/-! ## Reports and runs -/

namespace CommandLine

def captureLine (entry : String × String) : String := "  " ++ entry.1 ++ " = " ++ entry.2

/-- A report tells the step that a text selects and the captures that it is run with, or that no
step is found for the text. -/
structure Agrees (i : Interpreter (StateM σ)) (text : String) (world : σ) (report : Report) :
    Prop where
  matched : ∀ pattern lines, report = .done (("Matched: " ++ pattern) :: lines) ↔
    ∃ step captures world', i.Selects text world step captures world' ∧ step.pattern = pattern ∧
      captures.entries.map captureLine = lines
  notFound : report = .done ["No matching step"] ↔ ∀ gathered,
    ((i.runStep text gathered).run world).1 = (.error (.action (.stepNotFound text)), gathered)

private def reportOf : Except Failure (Option Match) → Report
  | .error f => .failed f
  | .ok found => .done (matchLines found)

private theorem perform_matchText {w : World (StateM σ)} {c : Settings} {noCache : Bool}
    {text : String} {script : Script} {world world' : σ}
    (hload : (c.loadScript w.files).run world = (.ok script, world')) :
    ((perform w c (.matchText text noCache)).run world).1 =
      reportOf (((matcher w c noCache).find script.stepPatterns text).run world').1 := by
  rcases hfind : ((matcher w c noCache).find script.stepPatterns text).run world' with ⟨answer, _⟩
  unfold perform
  rw [run_bind_of hload]
  simp only
  rw [run_bind_of hfind]
  cases answer <;> rfl

private theorem matched_inj {pattern pattern' : String}
    (h : "Matched: " ++ pattern = "Matched: " ++ pattern') : pattern = pattern' := by
  simpa [← String.toList_inj, String.toList_append] using h

private theorem matched_ne {pattern : String} : "Matched: " ++ pattern ≠ "No matching step" := by
  intro h
  have hlist := congrArg String.toList h
  rw [String.toList_append] at hlist
  cases hlist

private theorem reportOf_eq_none_iff {answer : Except Failure (Option Match)} :
    reportOf answer = .done (matchLines none) ↔ answer = .ok none := by
  constructor
  · intro h
    rcases answer with f | _ | found
    · cases congrArg Report.failure h
    · rfl
    · exact absurd (List.cons.inj (congrArg Report.lines h)).1 matched_ne
  · rintro rfl
    rfl

variable {i : Interpreter (StateM σ)} {text : String} {world world' : σ}

private theorem agrees_none_iff {report : Report}
    (h : (i.choose i.script.stepPatterns text).run world = (.ok none, world')) :
    Agrees i text world report ↔ report = .done (matchLines none) := by
  have hnotFound (gathered : Bindings) : ((i.runStep text gathered).run world).1 =
      (.error (.action (.stepNotFound text)), gathered) := by
    rw [Interpreter.runStep_of_choose_none h]
  constructor
  · exact fun hagrees => hagrees.notFound.2 hnotFound
  · rintro rfl
    refine ⟨fun pattern lines => ⟨fun heq => ?_, ?_⟩, fun _ => hnotFound, fun _ => rfl⟩
    · have hlines := congrArg Report.lines heq
      exact absurd (List.cons.inj hlines).1.symm matched_ne
    · rintro ⟨step, captures, _, hselects, -⟩
      have hchosen := hselects.chosen
      rw [h] at hchosen
      cases hchosen

private theorem agrees_of_error {e : ChatError}
    (h : (i.choose i.script.stepPatterns text).run world = (.error (.chat e), world'))
    (f : Failure) :
    Agrees i text world (.failed f) := by
  refine ⟨fun pattern lines => ⟨nofun, ?_⟩, nofun, fun hnotFound => ?_⟩
  · rintro ⟨step, captures, _, hselects, -⟩
    have hchosen := hselects.chosen
    rw [h] at hchosen
    cases hchosen
  · have hrun := hnotFound Dict.empty
    rw [Interpreter.runStep_of_choose_error h] at hrun
    cases hrun

private theorem agrees_of_selects {step : Step} {captures : Bindings}
    (h : i.Selects text world step captures world') (hfails : i.matcher.FailsInChat) :
    Agrees i text world (.done (matchLines (some ⟨step.pattern, captures⟩))) := by
  refine ⟨fun pattern lines => ⟨fun heq => ?_, ?_⟩, fun heq => ?_, fun hnotFound => ?_⟩
  · obtain ⟨hfirst, hrest⟩ := List.cons.inj (congrArg Report.lines heq)
    exact ⟨step, captures, world', h, matched_inj hfirst, hrest⟩
  · rintro ⟨step', captures', _, hselects, rfl, rfl⟩
    have hchosen := hselects.chosen
    rw [h.chosen] at hchosen
    obtain ⟨hpattern, hcaptures⟩ :=
      Match.mk.inj (Option.some.inj (Except.ok.inj (Prod.mk.inj hchosen).1))
    rw [← hpattern, ← hcaptures]
    rfl
  · have hlines := congrArg Report.lines heq
    exact absurd (List.cons.inj hlines).1 matched_ne
  · exact absurd (congrArg Prod.fst (hnotFound Dict.empty)) (h.ne_stepNotFound hfails Dict.empty)

/-- The command line tells what a run would do just when the matcher's answer is one of the patterns,
if it is a match, and no failure, if there are no patterns. -/
theorem match_agrees_iff {w : World (StateM σ)} {c : Settings} {noCache : Bool} {text : String}
    {i : Interpreter (StateM σ)} {world world' : σ}
    (hload : (c.loadScript w.files).run world = (.ok i.script, world'))
    (hmatcher : i.matcher = matcher w c noCache) {answer : Except Failure (Option Match)}
    (hanswer : ((i.matcher.find i.script.stepPatterns text).run world').1 = answer) :
    Agrees i text world' ((perform w c (.matchText text noCache)).run world).1 ↔
      (∀ found, answer = .ok (some found) → found.pattern ∈ i.script.stepPatterns) ∧
        (i.script.steps = [] → ∀ f, answer ≠ .error f) := by
  have hfails : i.matcher.FailsInChat := hmatcher ▸ failsInChat_matcher w c noCache
  rw [perform_matchText hload, ← hmatcher, hanswer]
  have hnil : i.script.steps = [] ↔ i.script.stepPatterns = [] := by
    simp [Script.stepPatterns]
  rw [hnil]
  rcases hfind : (i.matcher.find i.script.stepPatterns text).run world' with ⟨answer', world''⟩
  obtain rfl : answer' = answer := by rw [← hanswer, hfind]
  by_cases hpatterns : i.script.stepPatterns = []
  · have hchoose : (i.choose i.script.stepPatterns text).run world' = (.ok none, world') := by
      rw [hpatterns]
      rfl
    rw [agrees_none_iff hchoose, reportOf_eq_none_iff, hpatterns]
    rcases answer' with f | _ | found <;> simp
  · have hchoose := Interpreter.run_choose hpatterns hfind
    rcases answer' with f | _ | found
    · obtain ⟨e, rfl⟩ := hfails _ _ _ f hanswer
      simp [hpatterns, reportOf, agrees_of_error hchoose]
    · simp [hpatterns, reportOf, agrees_none_iff hchoose]
    · by_cases hmem : found.pattern ∈ i.script.stepPatterns
      · obtain ⟨step, hstep, hselects⟩ := Interpreter.exists_selects hfind hmem
        have hagrees := agrees_of_selects hselects hfails
        rw [hstep] at hagrees
        simp [hpatterns, reportOf, hagrees, hmem]
      · rw [Interpreter.chosen, if_neg hmem] at hchoose
        rw [agrees_none_iff hchoose, reportOf_eq_none_iff]
        simp [hmem]

/-! ## A cached match -/

/-- A directory with one step, and with an answer to a lookup in the cache. -/
def cachedDesk (answer : String) : Desk Unit where
  files := {
    root := .directory
      [("features", .directory [("steps", .directory
        [("a.steps", .file "Step: Log in\nnoop: x\n".toUTF8)])]),
        ("cache", .directory [("step-agent", .directory
          [(Cache.fileName (Matcher.key ["Log in"] "I log in"), .file answer.toUTF8)])])]
    working := []
    tokens := 0 }
  rest := ()

def offline : World (StateM (Desk Unit)) where
  files := Desk.access
  environment _ := none
  send _ := return .error "unreachable"
  showTime _ := "-"

def loginScript : Script := ⟨[⟨"Log in", [⟨"noop", "x", none⟩]⟩], [], []⟩

def offlineInterpreter : Interpreter (StateM (Desk Unit)) :=
  ⟨loginScript, Dict.empty, matcher offline .default false, 0⟩

def fittingAnswer : String := "\x7b\"text\": \"Log in\", \"args\": \x7b\"who\": \"I\"\x7d\x7d"

private def strayAnswer : String := "\x7b\"text\": \"Ghost\"\x7d"

def loadedDesk (answer : String) : Desk Unit :=
  ((Settings.default.loadScript offline.files).run (cachedDesk answer)).2

private theorem loadScript_of {answer : String}
    (h : ((Settings.default.loadScript offline.files).run (cachedDesk answer)).1 =
      .ok loginScript) :
    (Settings.default.loadScript offline.files).run (cachedDesk answer) =
      (.ok offlineInterpreter.script, loadedDesk answer) := by
  unfold loadedDesk
  generalize (Settings.default.loadScript offline.files).run (cachedDesk answer) = loaded at h
  obtain ⟨script, d⟩ := loaded
  exact congrArg (·, d) h

private theorem loadScript_fitting :
    (Settings.default.loadScript offline.files).run (cachedDesk fittingAnswer) =
      (.ok offlineInterpreter.script, loadedDesk fittingAnswer) :=
  loadScript_of (by decide +kernel)

private theorem loadScript_stray :
    (Settings.default.loadScript offline.files).run (cachedDesk strayAnswer) =
      (.ok offlineInterpreter.script, loadedDesk strayAnswer) :=
  loadScript_of (by decide +kernel)

set_option maxRecDepth 20000 in
private theorem find_fitting :
    ((offlineInterpreter.matcher.find offlineInterpreter.script.stepPatterns "I log in").run
      (loadedDesk fittingAnswer)).1 = .ok (some ⟨"Log in", Dict.ofList [("who", "I")]⟩) := by
  decide +kernel

set_option maxRecDepth 20000 in
private theorem find_stray :
    (((matcher offline .default false).find offlineInterpreter.script.stepPatterns "I log in").run
      (loadedDesk strayAnswer)).1 = .ok (some ⟨"Ghost", Dict.empty⟩) := by
  decide +kernel

private theorem matcher_offlineInterpreter :
    offlineInterpreter.matcher = matcher offline .default false := rfl

theorem match_agrees_offline :
    (Settings.default.loadScript offline.files).run (cachedDesk fittingAnswer) =
      (.ok offlineInterpreter.script, loadedDesk fittingAnswer) ∧
    offlineInterpreter.matcher = matcher offline .default false ∧
    Agrees offlineInterpreter "I log in" (loadedDesk fittingAnswer)
      ((perform offline .default (.matchText "I log in" false)).run
        (cachedDesk fittingAnswer)).1 := by
  have hagrees := match_agrees_iff loadScript_fitting matcher_offlineInterpreter find_fitting
  refine ⟨loadScript_fitting, matcher_offlineInterpreter, hagrees.2 ⟨?_, ?_⟩⟩
  · intro found hfound
    cases hfound
    exact List.mem_singleton_self "Log in"
  · intro hnil
    cases hnil

/-- A match in the cache that is none of the patterns is reported, and no run selects a step for
it. -/
theorem not_forall_match_agrees :
    ¬ ∀ (w : World (StateM (Desk Unit))) (c : Settings) (noCache : Bool) (text : String)
      (i : Interpreter (StateM (Desk Unit))) (d d' : Desk Unit),
      (c.loadScript w.files).run d = (.ok i.script, d') → i.matcher = matcher w c noCache →
      Agrees i text d' ((perform w c (.matchText text noCache)).run d).1 := by
  intro h
  have hagrees := h offline .default false "I log in" offlineInterpreter (cachedDesk strayAnswer)
    (loadedDesk strayAnswer) loadScript_stray matcher_offlineInterpreter
  have hreport : ((perform offline .default (.matchText "I log in" false)).run
      (cachedDesk strayAnswer)).1 = .done ["Matched: Ghost"] := by
    rw [perform_matchText loadScript_stray, find_stray]
    rfl
  obtain ⟨step, _, _, hselects, hpattern, -⟩ := (hagrees.matched "Ghost" []).1 hreport
  have hfirst := hselects.first
  rw [hpattern] at hfirst
  cases hfirst

end CommandLine
end StepScript
