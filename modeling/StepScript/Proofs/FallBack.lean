import StepScript.Proofs.CallMemory
import StepScript.Proofs.RoundLimit

/-!
Falling back on a conversation. A file that tells of calls can be missing, unreadable, garbled or
empty, and any of its calls can fail. Then the conversation takes place at the desk that the calls
made so far have left, and it is the one that takes place there when nothing is played back: with
the same requests, calls and result, and the same calls kept. Those made before it do not show in
it. When all calls succeed, nothing is done but these calls.
-/

set_option autoImplicit false
set_option relaxedAutoImplicit false

namespace StepScript

open FileTree

variable {σ ρ : Type}

/-! ## Repeated calls -/

namespace Makes

variable {dispatch : Dispatch (StateM σ)} {world world' : σ} {answers : List Answered}

private theorem run_repeatCalls_append (h : Makes dispatch world answers world')
    (hok : ∀ x ∈ answers, x.result.isOk) (rest : List ToolCall) :
    (Assistant.repeatCalls dispatch (answers.map Answered.call ++ rest)).run world =
      (Assistant.repeatCalls dispatch rest).run world' := by
  induction h with
  | nil world => rfl
  | @cons world _ _ call result answers hrun _ ih =>
    have hfirst : result.isOk := hok _ List.mem_cons_self
    cases result with
    | error t => cases hfirst
    | ok content =>
      exact (run_bind_of hrun).trans (ih fun x hx => hok x (List.mem_cons_of_mem _ hx))

private theorem run_repeatCalls (h : Makes dispatch world answers world')
    (hok : ∀ x ∈ answers, x.result.isOk) :
    (Assistant.repeatCalls dispatch (answers.map Answered.call)).run world = (true, world') := by
  have hall := h.run_repeatCalls_append hok []
  rw [List.append_nil] at hall
  exact hall

private theorem run_repeatCalls_failing (h : Makes dispatch world answers world')
    (hok : ∀ x ∈ answers, x.result.isOk) {call : ToolCall} {t : Trouble} {world'' : σ}
    (hfail : (dispatch call).run world' = (.error t, world'')) (after : List ToolCall) :
    (Assistant.repeatCalls dispatch (answers.map Answered.call ++ call :: after)).run world =
      (false, world'') := by
  rw [h.run_repeatCalls_append hok]
  exact run_bind_of hfail

private theorem succeeds_or_fails (dispatch : Dispatch (StateM σ)) (calls : List ToolCall)
    (world : σ) :
    (∃ answers world', answers.map Answered.call = calls ∧ Makes dispatch world answers world' ∧
      ∀ x ∈ answers, x.result.isOk) ∨
    ∃ answers call after world' t world'', calls = answers.map Answered.call ++ call :: after ∧
      Makes dispatch world answers world' ∧ (∀ x ∈ answers, x.result.isOk) ∧
        (dispatch call).run world' = (.error t, world'') := by
  induction calls generalizing world with
  | nil => exact .inl ⟨[], world, rfl, .nil world, nofun⟩
  | cons call calls ih =>
    rcases hrun : (dispatch call).run world with ⟨t | content, world₁⟩
    · exact .inr ⟨[], call, calls, world, t, world₁, rfl, .nil world, nofun, hrun⟩
    · have hcons {answers : List Answered} (hok : ∀ x ∈ answers, x.result.isOk) :
          ∀ x ∈ (⟨call, .ok content⟩ :: answers : List Answered), x.result.isOk := by
        intro x hx
        rcases List.mem_cons.1 hx with rfl | hx
        · rfl
        · exact hok x hx
      rcases ih world₁ with ⟨answers, world', rfl, hmakes, hok⟩ |
        ⟨answers, failing, after, world', t, world'', rfl, hmakes, hok, hfail⟩
      · exact .inl ⟨⟨call, .ok content⟩ :: answers, world', rfl, .cons hrun hmakes, hcons hok⟩
      · exact .inr ⟨⟨call, .ok content⟩ :: answers, failing, after, world', t, world'', rfl,
          .cons hrun hmakes, hcons hok, hfail⟩

end Makes

/-! ## Playing back -/

namespace Assistant

variable (a : Assistant (StateM σ)) (scope instruction : String)
  (dispatch : Dispatch (StateM σ))

/-- What there is to read in the place where an instruction is remembered. -/
def Reads (world : σ) (found : Except FileError ByteArray) : Prop :=
  (a.files.read (a.cache.pathOf scope instruction)).run world = (found, world)

/-- What is remembered is played back to its end: some calls, all of which succeed. -/
structure PlaysBack (world : σ) (answers : List Answered) (world' : σ) : Prop where
  remembered : ∃ bytes, a.Reads scope instruction world (.ok bytes) ∧
    Json.decodeBytes? bytes = some (answers.map Answered.call)
  nonempty : answers ≠ []
  makes : Makes dispatch world answers world'
  succeed : ∀ x ∈ answers, x.result.isOk

/-- Nothing is played back to its end, and only these calls are made; just the last of them
fails. -/
inductive BreaksOff : σ → List Answered → σ → Prop
  | absent {world : σ} (hread : a.Reads scope instruction world (.error .notFound)) :
      BreaksOff world [] world
  | unreadable {world : σ} {e : FileError} (hread : a.Reads scope instruction world (.error e))
      (hfound : e ≠ .notFound) : BreaksOff world [] world
  | garbled {world : σ} {bytes : ByteArray} (hread : a.Reads scope instruction world (.ok bytes))
      (hdecode : (Json.decodeBytes? bytes : Option (List ToolCall)) = none) :
      BreaksOff world [] world
  | empty {world : σ} {bytes : ByteArray} (hread : a.Reads scope instruction world (.ok bytes))
      (hdecode : Json.decodeBytes? bytes = some ([] : List ToolCall)) : BreaksOff world [] world
  | failing {world world' world'' : σ} {bytes : ByteArray} {answers : List Answered}
      {call : ToolCall} {after : List ToolCall} {t : Trouble}
      (hread : a.Reads scope instruction world (.ok bytes))
      (hdecode : Json.decodeBytes? bytes = some (answers.map Answered.call ++ call :: after))
      (hmakes : Makes dispatch world answers world') (hok : ∀ x ∈ answers, x.result.isOk)
      (hfail : (dispatch call).run world' = (.error t, world'')) :
      BreaksOff world (answers ++ [⟨call, .error t⟩]) world''

private def callsIn : Except FileError ByteArray → List ToolCall
  | .error _ => []
  | .ok bytes => (Json.decodeBytes? bytes).getD []

private theorem callsIn_of_decode {bytes : ByteArray} {calls : List ToolCall}
    (h : Json.decodeBytes? bytes = some calls) : callsIn (.ok bytes) = calls := by
  rw [callsIn, h, Option.getD_some]

variable {a scope instruction dispatch} {task : Assignment} {world world' : σ}
  {answers : List Answered}

private theorem Reads.run_remembered {found : Except FileError ByteArray}
    (h : a.Reads scope instruction world found) :
    (a.remembered scope instruction).run world = (callsIn found, world) := by
  unfold remembered Cache.read?
  rw [bind_assoc, run_bind_of h]
  rcases found with e | bytes
  · cases e <;> rfl
  · unfold callsIn
    simp only
    cases (Json.decodeBytes? bytes : Option (List ToolCall)) <;> rfl

private theorem Reads.run_playBack_nil {found : Except FileError ByteArray}
    (h : a.Reads task.scope instruction world found) (hnone : callsIn found = []) :
    (a.playBack instruction task dispatch).run world = (false, world) := by
  have hremembered := h.run_remembered
  rw [hnone] at hremembered
  exact run_bind_of hremembered

private theorem Reads.run_playBack {bytes : ByteArray} {calls : List ToolCall}
    (h : a.Reads task.scope instruction world (.ok bytes))
    (hdecode : Json.decodeBytes? bytes = some calls) (hne : calls ≠ []) :
    (a.playBack instruction task dispatch).run world = (repeatCalls dispatch calls).run world := by
  have hremembered := h.run_remembered
  rw [callsIn_of_decode hdecode] at hremembered
  cases calls with
  | nil => exact absurd rfl hne
  | cons call rest => exact run_bind_of hremembered

private theorem Reads.minuted {found : Except FileError ByteArray}
    (h : a.Reads scope instruction world found) (before : List Happening) :
    a.minuted.Reads scope instruction ⟨before, world⟩ found := by
  have hlift : (a.minuted.files.read (a.cache.pathOf scope instruction)).run ⟨before, world⟩ = _ :=
    Lifts.lift (a.files.read (a.cache.pathOf scope instruction)) before world
  rw [h] at hlift
  exact hlift

namespace PlaysBack

private theorem run_carryOut (h : a.PlaysBack task.scope instruction dispatch world answers world')
    (hcache : task.useCache = true) :
    (a.carryOut instruction task dispatch).run world = (.ok .ok, world') := by
  obtain ⟨bytes, hread, hdecode⟩ := h.remembered
  have hplay : (a.playBack instruction task dispatch).run world = (true, world') :=
    (hread.run_playBack hdecode (by simpa using h.nonempty)).trans
      (h.makes.run_repeatCalls h.succeed)
  rw [carryOut_cached _ _ _ hcache]
  exact run_bind_of hplay

private theorem minuted (h : a.PlaysBack scope instruction dispatch world answers world')
    (before : List Happening) :
    a.minuted.PlaysBack scope instruction (Dispatch.minuted dispatch) ⟨before, world⟩ answers
      ⟨before ++ answers.map .called, world'⟩ := by
  obtain ⟨bytes, hread, hdecode⟩ := h.remembered
  exact ⟨⟨bytes, hread.minuted before, hdecode⟩, h.nonempty, h.makes.minuted before, h.succeed⟩

end PlaysBack

namespace BreaksOff

private theorem run_carryOut (h : a.BreaksOff task.scope instruction dispatch world answers world')
    (hcache : task.useCache = true) :
    (a.carryOut instruction task dispatch).run world =
      (a.carryOutLive instruction task dispatch).run world' := by
  have hplay : (a.playBack instruction task dispatch).run world = (false, world') := by
    cases h with
    | absent hread => exact hread.run_playBack_nil rfl
    | unreadable hread _ => exact hread.run_playBack_nil rfl
    | garbled hread hdecode =>
      refine hread.run_playBack_nil ?_
      rw [callsIn, hdecode, Option.getD_none]
    | empty hread hdecode => exact hread.run_playBack_nil (callsIn_of_decode hdecode)
    | failing hread hdecode hmakes hok hfail =>
      exact (hread.run_playBack hdecode (by simp)).trans
        (hmakes.run_repeatCalls_failing hok hfail _)
  rw [carryOut_cached _ _ _ hcache]
  exact run_bind_of hplay

private theorem minuted (h : a.BreaksOff scope instruction dispatch world answers world')
    (before : List Happening) :
    a.minuted.BreaksOff scope instruction (Dispatch.minuted dispatch) ⟨before, world⟩ answers
      ⟨before ++ answers.map .called, world'⟩ := by
  cases h with
  | absent hread => simpa using BreaksOff.absent (hread.minuted before)
  | unreadable hread hfound => simpa using BreaksOff.unreadable (hread.minuted before) hfound
  | garbled hread hdecode => simpa using BreaksOff.garbled (hread.minuted before) hdecode
  | empty hread hdecode => simpa using BreaksOff.empty (hread.minuted before) hdecode
  | failing hread hdecode hmakes hok hfail =>
    rw [List.map_append, ← List.append_assoc]
    exact .failing (hread.minuted before) hdecode (hmakes.minuted before) hok
      (Log.run_noting _ hfail _)

end BreaksOff

private theorem playsBack_or_breaksOff {found : Except FileError ByteArray}
    (h : a.Reads scope instruction world found) :
    ∃ answers world', a.PlaysBack scope instruction dispatch world answers world' ∨
      a.BreaksOff scope instruction dispatch world answers world' := by
  cases found with
  | error e =>
    by_cases hfound : e = .notFound
    · exact ⟨[], world, .inr (.absent (hfound ▸ h))⟩
    · exact ⟨[], world, .inr (.unreadable h hfound)⟩
  | ok bytes =>
    cases hdecode : (Json.decodeBytes? bytes : Option (List ToolCall)) with
    | none => exact ⟨[], world, .inr (.garbled h hdecode)⟩
    | some calls =>
      by_cases hcalls : calls = []
      · exact ⟨[], world, .inr (.empty h (hcalls ▸ hdecode))⟩
      · rcases Makes.succeeds_or_fails dispatch calls world with
          ⟨answers, world', rfl, hmakes, hok⟩ |
          ⟨answers, call, after, world', t, world'', rfl, hmakes, hok, hfail⟩
        · have hne : answers ≠ [] := by simpa using hcalls
          exact ⟨answers, world', .inl ⟨⟨bytes, h, hdecode⟩, hne, hmakes, hok⟩⟩
        · exact ⟨_, world'', .inr (.failing h hdecode hmakes hok hfail)⟩

end Assistant

/-! ## Commissions -/

namespace Commission

variable (c : Commission ρ) (cache : Cache)

def caching (useCache : Bool) : Commission ρ :=
  { c with task := { c.task with useCache := useCache } }

def carryOutMinuted : StateM (Minutes (Desk ρ)) (Except Failure Outcome) :=
  (c.assistant cache).minuted.carryOut c.instruction c.task (Dispatch.minuted c.dispatch)

def PlaysBack : Desk ρ → List Answered → Desk ρ → Prop :=
  (c.assistant cache).PlaysBack c.task.scope c.instruction c.dispatch

def BreaksOff : Desk ρ → List Answered → Desk ρ → Prop :=
  (c.assistant cache).BreaksOff c.task.scope c.instruction c.dispatch

/-- A conversation about the instruction begins at a desk; the log holds what came before it. -/
structure BeginsAfresh (log : List Happening) (d : Desk ρ) (g : Dialogue)
    (happenings : List Happening) (d' : Desk ρ) : Prop where
  minutes : Minuted (c.assistant cache) c.instruction c.task happenings g.rounds g.last
  goes : ∃ saved, (c.caching false).Goes cache d ⟨some g, c.outcome cache g, saved⟩ d'
  run : ((c.caching false).carryOutMinuted cache).run ⟨log, d⟩ =
    (c.outcome cache g, ⟨log ++ happenings, d'⟩)

variable {c cache} {d d' : Desk ρ} {answers : List Answered}

private theorem playsBack_or_breaksOff (c : Commission ρ) (cache : Cache) (d : Desk ρ) :
    ∃ answers d', c.PlaysBack cache d answers d' ∨ c.BreaksOff cache d answers d' := by
  have hreads : (c.assistant cache).Reads c.task.scope c.instruction d
      (d.files.read (cache.pathOf c.task.scope c.instruction)) := rfl
  exact Assistant.playsBack_or_breaksOff hreads

private theorem Goes.exists_talks {a : Account} (h : c.Goes cache d a d')
    (hlive : c.task.useCache = false) :
    ∃ g d₁, c.Talks cache d g d₁ ∧ a = ⟨some g, c.outcome cache g, a.saved⟩ := by
  have hopens {d₁ : Desk ρ} (hopens : c.Opens cache d d₁) : d₁ = d := by
    cases hopens with
    | atOnce _ => rfl
    | inVain hcache _ => cases hcache.symm.trans hlive
  cases h with
  | playedBack hcache _ => cases hcache.symm.trans hlive
  | passed hfirst htalks _ => exact ⟨_, _, hopens hfirst ▸ htalks, rfl⟩
  | kept hfirst htalks _ _ => exact ⟨_, _, hopens hfirst ▸ htalks, rfl⟩

private theorem exists_beginsAfresh (c : Commission ρ) (cache : Cache) (log : List Happening)
    (d : Desk ρ) :
    ∃ g happenings d', c.BeginsAfresh cache log d g happenings d' := by
  obtain ⟨a, d', hgoes⟩ := (c.caching false).exists_goes cache d
  obtain ⟨g, d₁, htalks, ha⟩ := hgoes.exists_talks rfl
  have hholds : Holds (c.assistant cache).model c.task.tools c.dispatch
      (c.assistant cache).bound.1 [.system c.task.briefing, .user c.instruction] d g d₁ := htalks
  have hplain : ((c.assistant cache).carryOutLive c.instruction c.task c.dispatch).run d =
      (a.result, d') := hgoes.run
  have htold := hholds.run_carryOutLive_told log
  rw [hplain, ha] at htold
  rw [ha] at hgoes
  exact ⟨g, _, d', hholds.minutedAs, ⟨a.saved, hgoes⟩, htold⟩

private theorem PlaysBack.run (h : c.PlaysBack cache d answers d') (before : List Happening) :
    ((c.caching true).carryOut cache).run d = (.ok .ok, d') ∧
      ((c.caching true).carryOutMinuted cache).run ⟨before, d⟩ =
        (.ok .ok, ⟨before ++ answers.map .called, d'⟩) := by
  have hplain : ((c.caching true).assistant cache).PlaysBack (c.caching true).task.scope
      (c.caching true).instruction (c.caching true).dispatch d answers d' := h
  exact ⟨hplain.run_carryOut rfl, (hplain.minuted before).run_carryOut rfl⟩

private theorem BreaksOff.run (h : c.BreaksOff cache d answers d') (before : List Happening) :
    ((c.caching true).carryOut cache).run d = ((c.caching false).carryOut cache).run d' ∧
      ((c.caching true).carryOutMinuted cache).run ⟨before, d⟩ =
        ((c.caching false).carryOutMinuted cache).run ⟨before ++ answers.map .called, d'⟩ := by
  have hplain : ((c.caching true).assistant cache).BreaksOff (c.caching true).task.scope
      (c.caching true).instruction (c.caching true).dispatch d answers d' := h
  exact ⟨hplain.run_carryOut rfl, (hplain.minuted before).run_carryOut rfl⟩

/-- What is remembered is played back to its end, with no request and nothing written; or it breaks
off, and then everything goes on as it does without playing back. The conversation begins with the
instruction, and neither it nor what is kept tells of the calls made before. -/
theorem falls_back (c : Commission ρ) (cache : Cache) (d : Desk ρ) (before : List Happening) :
    (∃ answers d', c.PlaysBack cache d answers d' ∨ c.BreaksOff cache d answers d') ∧
    (∀ answers d', c.PlaysBack cache d answers d' →
      ((c.caching true).carryOut cache).run d = (.ok .ok, d') ∧
      ((c.caching true).carryOutMinuted cache).run ⟨before, d⟩ =
        (.ok .ok, ⟨before ++ answers.map .called, d'⟩) ∧
      ((∀ call, Calmly cache.root (c.dispatch call)) → Leaves cache.root d.files d'.files)) ∧
    ∀ answers d', c.BreaksOff cache d answers d' →
      ((c.caching true).carryOut cache).run d = ((c.caching false).carryOut cache).run d' ∧
      ((c.caching true).carryOutMinuted cache).run ⟨before, d⟩ =
        ((c.caching false).carryOutMinuted cache).run ⟨before ++ answers.map .called, d'⟩ ∧
      ∃ g happenings d'',
        c.BeginsAfresh cache (before ++ answers.map .called) d' g happenings d'' := by
  refine ⟨c.playsBack_or_breaksOff cache d, fun answers d' h => ?_, fun answers d' h => ?_⟩
  · obtain ⟨hplain, htold⟩ := h.run before
    exact ⟨hplain, htold, h.makes.leaves⟩
  · obtain ⟨hplain, htold⟩ := h.run before
    exact ⟨hplain, htold, c.exists_beginsAfresh cache _ d'⟩

end Commission

/-! ## A second call that fails -/

def closeCall : ToolCall := .function "call_2" "close" "\x7b\x7d"

def markedTable (calls : List ToolCall) : Table where
  files := {
    root := .directory [("cache", .directory [("llm", .directory
      [(Cache.fileName "open", .file (Json.Codec.encode calls).indented.toUTF8)])])]
    working := []
    tokens := 0 }
  rest := ⟨[], []⟩

def openingOnce : Partner where
  replies talk :=
    if talk.requests.length = 1 then .ok openRound.reply
    else .ok ⟨.assistant, some "\x7b\"success\": true\x7d", [], none⟩
  roundLimit := none
  patience := 3

def jammed (call : ToolCall) : Except Trouble String :=
  if call = closeCall then .error (.of "boom") else .ok "done"

def jammedOpening : Commission Talk :=
  ⟨"open", openTask true, answering openingOnce.replies, calling jammed, openingOnce.roundLimit,
    openingOnce.patience⟩

set_option maxRecDepth 20000 in
private theorem fileName_open : Cache.fileName "open" =
    "a1a614136bd7aa340fee5a62b4591b257b9ae400ed8fc673456b0029e9a5d8c3.json" := by
  decide +kernel

set_option maxRecDepth 20000 in
private theorem reads_marked (calls : List ToolCall) :
    (jammedOpening.assistant openCache).Reads "llm" "open" (markedTable calls)
      (.ok (Json.Codec.encode calls).indented.toUTF8) := by
  have hread : (markedTable calls).files.read (openCache.pathOf "llm" "open") =
      .ok (Json.Codec.encode calls).indented.toUTF8 := by
    unfold markedTable Cache.pathOf
    rw [fileName_open]
    rfl
  exact congrArg (·, markedTable calls) hread

private theorem makes_open (calls : List ToolCall) : Makes jammedOpening.dispatch
    (markedTable calls) openRound.answers ((markedTable calls).make [openCall]) :=
  .cons rfl (.nil _)

private theorem succeed_openRound : ∀ x ∈ openRound.answers, x.result.isOk := by
  intro x hx
  obtain rfl := List.mem_singleton.1 hx
  rfl

private theorem playsBack_open : jammedOpening.PlaysBack openCache (markedTable [openCall])
    openRound.answers ((markedTable [openCall]).make [openCall]) :=
  ⟨⟨_, reads_marked [openCall], ToolCall.readsBack [openCall]⟩, List.cons_ne_nil _ _,
    makes_open [openCall], succeed_openRound⟩

def jammedAnswers : List Answered := openRound.answers ++ [⟨closeCall, .error (.of "boom")⟩]

private theorem breaksOff_close :
    jammedOpening.BreaksOff openCache (markedTable [openCall, closeCall])
      jammedAnswers ((markedTable [openCall, closeCall]).make [openCall, closeCall]) := by
  have hdecode : Json.decodeBytes? (Json.Codec.encode [openCall, closeCall]).indented.toUTF8 =
      some (openRound.answers.map Answered.call ++ closeCall :: []) :=
    ToolCall.readsBack [openCall, closeCall]
  exact .failing (reads_marked _) hdecode (makes_open _) succeed_openRound rfl

private theorem talks_open : ∃ d,
    jammedOpening.Talks openCache ((markedTable [openCall, closeCall]).make [openCall, closeCall])
      openDialogue d := by
  let d := ((markedTable [openCall, closeCall]).make [openCall, closeCall]).hear (openMessages, [])
  have hanswers : Makes jammedOpening.dispatch d openRound.answers (d.make [openCall]) :=
    .cons rfl (.nil _)
  refine ⟨(d.make [openCall]).hear (openMessages ++ openRound.messages, []),
    .round rfl hanswers (.ends rfl ?_)⟩
  rintro _ ⟨⟩ hasks
  exact absurd hasks (by decide)

set_option maxRecDepth 20000 in
private theorem outcome_open : jammedOpening.outcome openCache openDialogue = .ok .ok := by
  decide +kernel

/-- Neither the conversation nor what is kept of it tells of the two calls before it. -/
theorem falls_back_after_close :
    ((jammedOpening.caching true).carryOut openCache).run (markedTable [openCall]) =
      (.ok .ok, (markedTable [openCall]).make [openCall]) ∧
    ∃ happenings d,
      jammedOpening.BeginsAfresh openCache
        (jammedAnswers.map .called) ((markedTable [openCall, closeCall]).make [openCall, closeCall])
        openDialogue happenings d ∧
      openDialogue.calls = [openCall] ∧
      ((jammedOpening.caching true).carryOut openCache).run (markedTable [openCall, closeCall]) =
        (.ok .ok, d) := by
  obtain ⟨-, hplayed, -⟩ := jammedOpening.falls_back openCache (markedTable [openCall]) []
  obtain ⟨-, -, hbroken⟩ :=
    jammedOpening.falls_back openCache (markedTable [openCall, closeCall]) []
  refine ⟨(hplayed _ _ playsBack_open).1, ?_⟩
  obtain ⟨hsame, -, g, happenings, d, htold, ⟨saved, hgoes⟩, hrun⟩ := hbroken _ _ breaksOff_close
  have hg : g = openDialogue := by
    obtain ⟨g', _, htalks, hg'⟩ := hgoes.exists_talks rfl
    obtain ⟨_, hopen⟩ := talks_open
    cases hg'
    exact (Holds.unique htalks hopen).1
  subst hg
  refine ⟨happenings, d, ⟨htold, ⟨saved, hgoes⟩, hrun⟩, rfl, ?_⟩
  rw [hsame, hgoes.run, outcome_open]

end StepScript
