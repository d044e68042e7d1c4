import StepScript.Conversation
import StepScript.Proofs.Recording

/-!
How a conversation goes. Each round of it is a reply that asks for tools, with an answer to each of
its calls; after the rounds, the answer to one more request ends it. Every conversation goes in this
way, and what it comes to depends on its rounds and its last answer only. Before it, what is
remembered may be played back.
-/

set_option autoImplicit false
set_option relaxedAutoImplicit false

namespace StepScript

variable {σ : Type}

theorem Message.asksForTools_iff {reply : Message} :
    reply.asksForTools = true ↔ reply.toolCalls ≠ [] := by
  simp [asksForTools]

structure Answered where
  call : ToolCall
  result : Except Trouble String

/-- The message that answers a call: what it came to, or in which words it failed. -/
def Answered.message (a : Answered) : Message where
  role := .tool
  content := some <|
    match a.result with
    | .ok content => content
    | .error t => "Error executing tool \"" ++ a.call.name ++ "\": " ++ ": ".intercalate t.causes
  toolCalls := []
  answers := some a.call.id

/-- A reply that asks for tools, and the answers to its calls. -/
structure Round where
  reply : Message
  answers : List Answered
  asks : reply.toolCalls ≠ []
  /-- Each call is answered once, in the order of the calls. -/
  complete : answers.map Answered.call = reply.toolCalls

def Round.messages (r : Round) : List Message := r.reply :: r.answers.map Answered.message

/-- The rounds of a conversation, and the answer that ended it. -/
structure Dialogue where
  rounds : List Round
  last : Except ChatError Message

namespace Dialogue

def calls (g : Dialogue) : List ToolCall := g.rounds.flatMap fun r => r.reply.toolCalls

/-- What a conversation comes to that has made some calls before; `stop` is for a last reply that
asks for tools. -/
def result (g : Dialogue) (stop : Failure) (before : List ToolCall) :
    Except Failure (Message × List ToolCall) :=
  match g.last with
  | .error e => .error (.chat e)
  | .ok reply => if reply.toolCalls = [] then .ok (reply, before ++ g.calls) else .error stop

theorem calls_of_result {g : Dialogue} {stop : Failure} {before calls : List ToolCall}
    {reply : Message} (h : g.result stop before = .ok (reply, calls)) :
    calls = before ++ g.calls := by
  unfold result at h
  split at h
  · cases h
  · split at h
    · cases h
      rfl
    · cases h

end Dialogue

/-! ## Calls -/

inductive Makes (dispatch : Dispatch (StateM σ)) : σ → List Answered → σ → Prop
  | nil (world : σ) : Makes dispatch world [] world
  | cons {world world₁ world₂ : σ} {call : ToolCall} {result : Except Trouble String}
      {answers : List Answered} (hrun : (dispatch call).run world = (result, world₁))
      (hrest : Makes dispatch world₁ answers world₂) :
      Makes dispatch world (⟨call, result⟩ :: answers) world₂

namespace Makes

private theorem answerTo_report (call : ToolCall) (result : Except Trouble String) :
    Message.answerTo call.id (Conversation.report call result) =
      Answered.message ⟨call, result⟩ := by
  cases result with
  | ok content => rfl
  | error t => rfl

theorem exists_makes (dispatch : Dispatch (StateM σ)) (calls : List ToolCall) (world : σ) :
    ∃ answers world', answers.map Answered.call = calls ∧ Makes dispatch world answers world' := by
  induction calls generalizing world with
  | nil => exact ⟨[], world, rfl, .nil world⟩
  | cons call calls ih =>
    obtain ⟨answers, world', hcalls, hmakes⟩ := ih ((dispatch call).run world).2
    exact ⟨⟨call, _⟩ :: answers, world', congrArg (call :: ·) hcalls, .cons rfl hmakes⟩

private theorem run_answerAll {dispatch : Dispatch (StateM σ)} {world world' : σ}
    {answers : List Answered} (h : Makes dispatch world answers world') (c : Conversation) :
    (Assistant.answerAll dispatch (answers.map Answered.call) c).run world =
      (⟨c.messages ++ answers.map Answered.message, c.calls ++ answers.map Answered.call⟩,
        world') := by
  induction h generalizing c with
  | nil world =>
    simp only [List.map_nil, List.append_nil]
    rfl
  | @cons world world₁ world₂ call result answers hrun _ ih =>
    rw [List.map_cons, Assistant.answerAll, run_bind_of hrun, ih]
    simp [Conversation.answer, answerTo_report]

end Makes

/-! ## Conversations -/

/-- A conversation goes on from some messages in this way, when so many replies that ask for tools
are still honoured. -/
inductive Holds (model : ChatModel (StateM σ)) (tools : List Tool)
    (dispatch : Dispatch (StateM σ)) : Nat → List Message → σ → Dialogue → σ → Prop
  | ends {room : Nat} {messages : List Message} {world world' : σ}
      {last : Except ChatError Message}
      (hask : (model.ask messages tools).run world = (last, world'))
      (hroom : ∀ reply, last = .ok reply → reply.toolCalls ≠ [] → room = 0) :
      Holds model tools dispatch room messages world ⟨[], last⟩ world'
  | round {room : Nat} {messages : List Message} {world world₁ world₂ world' : σ} {r : Round}
      {rounds : List Round} {last : Except ChatError Message}
      (hask : (model.ask messages tools).run world = (.ok r.reply, world₁))
      (hanswers : Makes dispatch world₁ r.answers world₂)
      (hrest : Holds model tools dispatch room (messages ++ r.messages) world₂ ⟨rounds, last⟩
        world') :
      Holds model tools dispatch (room + 1) messages world ⟨r :: rounds, last⟩ world'

namespace Holds

variable {model : ChatModel (StateM σ)} {tools : List Tool} {dispatch : Dispatch (StateM σ)}

theorem exists_holds (model : ChatModel (StateM σ)) (tools : List Tool)
    (dispatch : Dispatch (StateM σ)) (room : Nat) (messages : List Message) (world : σ) :
    ∃ g world', Holds model tools dispatch room messages world g world' := by
  induction room generalizing messages world with
  | zero =>
    rcases hask : (model.ask messages tools).run world with ⟨last, world'⟩
    exact ⟨⟨[], last⟩, world', .ends hask fun _ _ _ => rfl⟩
  | succ room ih =>
    rcases hask : (model.ask messages tools).run world with ⟨last, world₁⟩
    by_cases hasks : ∃ reply, last = .ok reply ∧ reply.toolCalls ≠ []
    · obtain ⟨reply, rfl, hreply⟩ := hasks
      obtain ⟨answers, world₂, hcomplete, hmakes⟩ :=
        Makes.exists_makes dispatch reply.toolCalls world₁
      let r : Round := ⟨reply, answers, hreply, hcomplete⟩
      obtain ⟨⟨rounds, last⟩, world', hholds⟩ := ih (messages ++ r.messages) world₂
      exact ⟨⟨r :: rounds, last⟩, world', .round hask hmakes hholds⟩
    · refine ⟨⟨[], last⟩, world₁, .ends hask fun reply hlast hreply => ?_⟩
      exact absurd ⟨reply, hlast, hreply⟩ hasks

theorem length_rounds {room : Nat} {messages : List Message} {world world' : σ} {g : Dialogue}
    (h : Holds model tools dispatch room messages world g world') :
    g.rounds.length ≤ room ∧
      ∀ reply, g.last = .ok reply → reply.toolCalls ≠ [] → g.rounds.length = room := by
  induction h with
  | ends _ hroom => exact ⟨Nat.zero_le _, fun reply hlast hreply => (hroom reply hlast hreply).symm⟩
  | round _ _ _ ih =>
    simp only [List.length_cons]
    exact ⟨Nat.succ_le_succ ih.1, fun reply hlast hreply => congrArg _ (ih.2 reply hlast hreply)⟩

theorem run_converse {a : Assistant (StateM σ)} {room : Nat} {world world' : σ}
    {g : Dialogue} {stop : Failure} {messages : List Message} {calls : List ToolCall}
    (h : Holds a.model tools dispatch room messages world g world') :
    (a.converse tools dispatch stop room ⟨messages, calls⟩).run world =
      (g.result stop calls, world') := by
  induction h generalizing calls with
  | @ends room messages world world' last hask hroom =>
    unfold Assistant.converse
    rw [run_bind_of hask]
    cases last with
    | error e => rfl
    | ok reply =>
      by_cases hcalls : reply.toolCalls = []
      · have hplain : reply.asksForTools = false := by simp [Message.asksForTools, hcalls]
        simp only [hplain, hcalls, Dialogue.result, Dialogue.calls, List.flatMap_nil,
          List.append_nil]
        rfl
      · obtain rfl := hroom reply rfl hcalls
        simp only [Message.asksForTools_iff.2 hcalls, hcalls, Dialogue.result]
        rfl
  | @round room messages world world₁ world₂ world' r rounds last hask hanswers _ ih =>
    unfold Assistant.converse
    have hhear : Conversation.hear ⟨messages, calls⟩ r.reply = ⟨messages ++ [r.reply], calls⟩ := rfl
    have hall := hanswers.run_answerAll (Conversation.hear ⟨messages, calls⟩ r.reply)
    rw [r.complete] at hall
    rw [run_bind_of hask]
    simp only [Message.asksForTools_iff.2 r.asks, if_true]
    rw [run_bind_of hall]
    have hmessages : messages ++ [r.reply] ++ r.answers.map Answered.message =
        messages ++ r.messages := by simp [Round.messages]
    rw [hhear, hmessages, ih]
    simp [Dialogue.result, Dialogue.calls]

end Holds

/-! ## The end of a conversation -/

namespace Assistant

/-- What becomes of the end of a conversation: its outcome, and whether its calls are kept. -/
def conclude {m : Type → Type} [Monad m] (a : Assistant m) (instruction : String)
    (task : Assignment) : Except Failure (Message × List ToolCall) → m (Except Failure Outcome)
  | .error f => return .error f
  | .ok (reply, calls) =>
    match Conversation.outcomeOf instruction reply with
    | .error f => return .error f
    | .ok o => do
      if Conversation.isWorthKeeping o calls then
        let _ ← a.cache.write a.files task.scope instruction calls
      return .ok o

private theorem carryOutLive_eq {m : Type → Type} [Monad m] (a : Assistant m) (instruction : String)
    (task : Assignment) (dispatch : Dispatch m) :
    a.carryOutLive instruction task dispatch =
      a.converse task.tools dispatch a.bound.2 a.bound.1 (.opening task.briefing instruction) >>=
        a.conclude instruction task := by
  unfold carryOutLive
  rfl

end Assistant

namespace Assistant

variable (a : Assistant (StateM σ)) (instruction : String) {task : Assignment}
  (dispatch : Dispatch (StateM σ))

theorem run_conclude_fst (reply : Message) (calls : List ToolCall) (world : σ) :
    ((a.conclude instruction task (.ok (reply, calls))).run world).1 =
      Conversation.outcomeOf instruction reply := by
  unfold conclude
  simp only
  cases Conversation.outcomeOf instruction reply with
  | error f => rfl
  | ok o =>
    generalize a.cache.write a.files task.scope instruction calls = write
    simp only
    split
    next => rfl
    next => rfl

theorem run_conclude_of_isWorthKeeping {reply : Message} {calls : List ToolCall} {o : Outcome}
    (houtcome : Conversation.outcomeOf instruction reply = .ok o)
    (hworth : Conversation.isWorthKeeping o calls = true) (world : σ) :
    (a.conclude instruction task (.ok (reply, calls))).run world =
      (.ok o, ((a.cache.write a.files task.scope instruction calls).run world).2) := by
  unfold conclude
  simp only [houtcome, hworth, if_true]
  generalize a.cache.write a.files task.scope instruction calls = write
  rfl

theorem carryOut_live (h : task.useCache = false) :
    a.carryOut instruction task dispatch = a.carryOutLive instruction task dispatch := by
  unfold carryOut
  rw [h]
  rfl

theorem carryOut_cached (h : task.useCache = true) :
    a.carryOut instruction task dispatch =
      a.playBack instruction task dispatch >>= fun done =>
        if done then pure (.ok .ok) else a.carryOutLive instruction task dispatch := by
  unfold carryOut
  rw [h]
  rfl

end Assistant

/-- What carrying out an instruction comes to, told from the conversation about it. -/
theorem Holds.run_carryOutLive {a : Assistant (StateM σ)} {instruction : String} {task : Assignment}
    {dispatch : Dispatch (StateM σ)} {world world' : σ} {g : Dialogue}
    (h : Holds a.model task.tools dispatch a.bound.1 [.system task.briefing, .user instruction]
      world g world') :
    (a.carryOutLive instruction task dispatch).run world =
      (a.conclude instruction task (g.result a.bound.2 [])).run world' := by
  have hrun : (a.converse task.tools dispatch a.bound.2 a.bound.1
      (.opening task.briefing instruction)).run world = (g.result a.bound.2 [], world') :=
    h.run_converse
  rw [a.carryOutLive_eq, run_bind_of hrun]
end StepScript
