import Mathlib.Data.List.Infix
import StepScript.Proofs.Dialogue
import StepScript.Proofs.Log

/-!
The minutes of a conversation. What is asked of the model and of the tools is taken down in order,
with what comes back, and the conversation itself stays the same. The minutes of a conversation tell
its rounds: each request shows the briefing, the instruction and all rounds before it, so it
continues the request before, and the tools are called for the calls of the honoured replies, each
once and in their order.
-/

set_option autoImplicit false
set_option relaxedAutoImplicit false

namespace StepScript

variable {σ α : Type}

inductive Happening
  | asked (messages : List Message) (tools : List Tool) (answer : Except ChatError Message)
  | called (answered : Answered)

abbrev Minutes (σ : Type) := Log Happening σ

def ChatModel.minuted (model : ChatModel (StateM σ)) : ChatModel (StateM (Minutes σ)) where
  ask messages tools := Log.noting (.asked messages tools) (model.ask messages tools)

def Dispatch.minuted (dispatch : Dispatch (StateM σ)) : Dispatch (StateM (Minutes σ)) :=
  fun call => Log.noting (fun result => .called ⟨call, result⟩) (dispatch call)

def FileAccess.minuted (files : FileAccess (StateM σ)) : FileAccess (StateM (Minutes σ)) where
  read path := Log.lift (files.read path)
  kind? path := Log.lift (files.kind? path)
  entries path := Log.lift (files.entries path)
  outline path := Log.lift (files.outline path)
  makeDirectory path := Log.lift (files.makeDirectory path)
  create path := Log.lift (files.create path)
  write path bytes := Log.lift (files.write path bytes)
  sync path := Log.lift (files.sync path)
  rename source target := Log.lift (files.rename source target)
  remove path := Log.lift (files.remove path)
  freshToken := Log.lift files.freshToken

def Assistant.minuted (a : Assistant (StateM σ)) : Assistant (StateM (Minutes σ)) :=
  ⟨a.model.minuted, a.cache, a.files.minuted, a.roundLimit, a.patience⟩

/-! ## What is not taken down -/

namespace Lifts

variable (files : FileAccess (StateM σ))

private theorem isDirectory (path : Path) :
    Lifts (files.isDirectory path) (files.minuted.isDirectory path) :=
  bind (lift _) fun _ => pure _

private theorem ifDirectory (path : Path) (e : FileError) :
    Lifts (do return if ← files.isDirectory path then .ok () else .error e :
      StateM σ (Except FileError Unit))
      (do return if ← files.minuted.isDirectory path then .ok () else .error e) :=
  bind (isDirectory files path) fun _ => pure _

private theorem makeDirectoriesFrom (depth : Nat) (path : Path) :
    Lifts (files.makeDirectoriesFrom depth path) (files.minuted.makeDirectoriesFrom depth path) := by
  induction depth generalizing path with
  | zero => exact pure _
  | succ depth ih =>
    unfold FileAccess.makeDirectoriesFrom
    cases path.text == "" with
    | true => exact pure _
    | false =>
      refine bind (lift (files.makeDirectory path)) fun made => ?_
      cases made with
      | ok _ => exact pure _
      | error e =>
        cases e with
        | notFound =>
          simp only
          cases path.parent with
          | none => exact pure _
          | some parent =>
            refine bind (ih parent) fun above => ?_
            cases above with
            | error e => exact pure _
            | ok _ =>
              refine bind (lift (files.makeDirectory path)) fun last => ?_
              cases last with
              | ok _ => exact pure _
              | error e => exact ifDirectory files path e
        | _ => exact ifDirectory files path _

private theorem makeParent (path : Path) :
    Lifts (Cache.makeParent files path) (Cache.makeParent files.minuted path) := by
  unfold Cache.makeParent
  cases path.parent with
  | none => exact pure _
  | some parent => exact makeDirectoriesFrom files _ parent

private theorem writeAndRename (temporary path : Path) (bytes : ByteArray) :
    Lifts (Cache.writeAndRename files temporary path bytes)
      (Cache.writeAndRename files.minuted temporary path bytes) := by
  unfold Cache.writeAndRename
  refine bind (lift (files.create temporary)) fun created => ?_
  cases created with
  | error e => exact pure _
  | ok _ =>
    refine bind (lift (files.write temporary bytes)) fun written => ?_
    cases written with
    | error e => exact pure _
    | ok _ =>
      refine bind (lift (files.sync temporary)) fun synced => ?_
      cases synced with
      | error e => exact pure _
      | ok _ => exact lift _

private theorem replaceFile (path : Path) (bytes : ByteArray) :
    Lifts (Cache.replaceFile files path bytes) (Cache.replaceFile files.minuted path bytes) := by
  unfold Cache.replaceFile
  refine bind (lift files.freshToken) fun token => ?_
  refine bind (writeAndRename files _ path bytes) fun done => ?_
  cases done with
  | ok _ => exact pure _
  | error e => exact bind (lift (files.remove _)) fun _ => pure _

private theorem write [Json.Codec α] (c : Cache) (scope key : String) (v : α) :
    Lifts (c.write files scope key v) (c.write files.minuted scope key v) := by
  unfold Cache.write
  refine bind (makeParent files _) fun made => ?_
  cases made with
  | error e => exact pure _
  | ok _ => exact replaceFile files _ _

end Lifts

namespace Assistant

private theorem lifts_conclude (a : Assistant (StateM σ)) (instruction : String) (task : Assignment)
    (r : Except Failure (Message × List ToolCall)) :
    Lifts (a.conclude instruction task r) (a.minuted.conclude instruction task r) := by
  unfold conclude
  cases r with
  | error f => exact .pure _
  | ok found =>
    obtain ⟨reply, calls⟩ := found
    simp only
    cases Conversation.outcomeOf instruction reply with
    | error f => exact .pure _
    | ok o =>
      simp only
      cases Conversation.isWorthKeeping o calls with
      | false => exact .pure _
      | true => exact .bind (.write a.files a.cache task.scope instruction calls) fun _ => .pure _

end Assistant

/-! ## What the minutes tell -/

/-- The minutes of rounds that go on from some messages, and of the request behind them. -/
def told (tools : List Tool) (messages : List Message) :
    List Round → Except ChatError Message → List Happening
  | [], last => [.asked messages tools last]
  | r :: rounds, last =>
    .asked messages tools (.ok r.reply) ::
      (r.answers.map .called ++ told tools (messages ++ r.messages) rounds last)

theorem Makes.minuted {dispatch : Dispatch (StateM σ)} {world world' : σ}
    {answers : List Answered} (h : Makes dispatch world answers world') (before : List Happening) :
    Makes (Dispatch.minuted dispatch) ⟨before, world⟩ answers
      ⟨before ++ answers.map .called, world'⟩ := by
  induction h generalizing before with
  | nil world =>
    rw [List.map_nil, List.append_nil]
    exact .nil _
  | @cons world world₁ world₂ call result answers hrun _ ih =>
    have hrest := ih (before ++ [.called ⟨call, result⟩])
    rw [List.append_assoc] at hrest
    exact .cons (Log.run_noting _ hrun before) hrest

private theorem Holds.minuted {model : ChatModel (StateM σ)} {tools : List Tool}
    {dispatch : Dispatch (StateM σ)} {room : Nat} {messages : List Message} {world world' : σ}
    {g : Dialogue} (h : Holds model tools dispatch room messages world g world')
    (before : List Happening) :
    Holds model.minuted tools (Dispatch.minuted dispatch) room messages ⟨before, world⟩ g
      ⟨before ++ told tools messages g.rounds g.last, world'⟩ := by
  induction h generalizing before with
  | ends hask hroom => exact .ends (Log.run_noting _ hask before) hroom
  | @round room messages world world₁ world₂ world' r rounds last hask hanswers _ ih =>
    have hrest := ih (before ++ [.asked messages tools (.ok r.reply)] ++ r.answers.map .called)
    simp only [List.append_assoc, List.singleton_append] at hrest
    have hmade := hanswers.minuted (before ++ [.asked messages tools (.ok r.reply)])
    rw [List.append_assoc, List.singleton_append] at hmade
    exact .round (Log.run_noting _ hask before) hmade hrest

def requestsIn (happenings : List Happening) : List (List Message) :=
  happenings.filterMap fun
    | .asked messages _ _ => some messages
    | .called _ => none

def answersIn (happenings : List Happening) : List Answered :=
  happenings.filterMap fun
    | .asked _ _ _ => none
    | .called answered => some answered

private theorem requestsIn_called (answers : List Answered) (happenings : List Happening) :
    requestsIn (answers.map .called ++ happenings) = requestsIn happenings := by
  simp [requestsIn, List.filterMap_append, List.filterMap_map]

private theorem answersIn_called (answers : List Answered) (happenings : List Happening) :
    answersIn (answers.map .called ++ happenings) = answers ++ answersIn happenings := by
  simp [answersIn, List.filterMap_append, List.filterMap_map]

variable (tools : List Tool) (messages : List Message) (rounds : List Round)
  (last : Except ChatError Message)

private theorem requestsIn_told_cons (r : Round) :
    requestsIn (told tools messages (r :: rounds) last) =
      messages :: requestsIn (told tools (messages ++ r.messages) rounds last) :=
  congrArg (messages :: ·) (requestsIn_called r.answers _)

private theorem requestsIn_told :
    requestsIn (told tools messages rounds last) =
      rounds.inits.map fun earlier => messages ++ earlier.flatMap Round.messages := by
  induction rounds generalizing messages with
  | nil => simp [told, requestsIn]
  | cons r rounds ih =>
    rw [requestsIn_told_cons, ih]
    simp [Function.comp_def]

private theorem answersIn_told :
    answersIn (told tools messages rounds last) = rounds.flatMap Round.answers := by
  induction rounds generalizing messages with
  | nil => rfl
  | cons r rounds ih =>
    have hfirst : answersIn (told tools messages (r :: rounds) last) =
        r.answers ++ answersIn (told tools (messages ++ r.messages) rounds last) :=
      answersIn_called r.answers _
    rw [hfirst, ih, List.flatMap_cons]

private theorem requestsIn_told_pairwise :
    (requestsIn (told tools messages rounds last)).Pairwise (· <+: ·) := by
  induction rounds generalizing messages with
  | nil => simp [told, requestsIn]
  | cons r rounds ih =>
    rw [requestsIn_told_cons]
    refine List.pairwise_cons.2 ⟨fun request hrequest => ?_, ih _⟩
    rw [requestsIn_told] at hrequest
    obtain ⟨earlier, -, rfl⟩ := List.mem_map.1 hrequest
    rw [List.append_assoc]
    exact List.prefix_append messages _

/-- The messages that a conversation about an instruction starts with. -/
def greeting (instruction : String) (task : Assignment) : List Message :=
  [⟨.system, some task.briefing, [], none⟩, ⟨.user, some instruction, [], none⟩]

/-- The minutes of a conversation about an instruction: what its requests show, which calls are made,
and how many rounds there are. -/
structure Minuted (a : Assistant (StateM σ)) (instruction : String) (task : Assignment)
    (happenings : List Happening) (rounds : List Round) (last : Except ChatError Message) :
    Prop where
  told : happenings = told task.tools (greeting instruction task) rounds last
  requests : requestsIn happenings = rounds.inits.map fun earlier =>
    greeting instruction task ++ earlier.flatMap Round.messages
  extending : (requestsIn happenings).Pairwise (· <+: ·)
  answers : answersIn happenings = rounds.flatMap Round.answers
  calls : (answersIn happenings).map Answered.call = rounds.flatMap fun r => r.reply.toolCalls
  asking : ∀ r ∈ rounds, r.reply.toolCalls ≠ []
  length_le : rounds.length ≤ a.roundLimit.getD a.patience
  /-- A reply is left unhonoured only when no more replies may ask for tools. -/
  length_eq : ∀ reply, last = .ok reply → reply.toolCalls ≠ [] →
    rounds.length = a.roundLimit.getD a.patience

private theorem Assistant.bound_eq (a : Assistant (StateM σ)) :
    a.bound.1 = a.roundLimit.getD a.patience := by
  unfold Assistant.bound
  cases a.roundLimit <;> rfl

theorem Holds.minutedAs {a : Assistant (StateM σ)} {instruction : String} {task : Assignment}
    {dispatch : Dispatch (StateM σ)} {world world' : σ} {g : Dialogue}
    (h : Holds a.model task.tools dispatch a.bound.1 [.system task.briefing, .user instruction]
      world g world') :
    Minuted a instruction task
      (StepScript.told task.tools [.system task.briefing, .user instruction] g.rounds g.last)
      g.rounds g.last where
  told := rfl
  requests := requestsIn_told _ _ _ _
  extending := requestsIn_told_pairwise _ _ _ _
  answers := answersIn_told _ _ _ _
  calls := by
    have hround : ∀ r : Round, r.answers.map Answered.call = r.reply.toolCalls := Round.complete
    rw [answersIn_told, List.map_flatMap]
    simp only [hround]
  asking r _ := r.asks
  length_le := by
    rw [← a.bound_eq]
    exact h.length_rounds.1
  length_eq reply hlast hasks := by
    rw [← a.bound_eq]
    exact h.length_rounds.2 reply hlast hasks

/-- Carrying out an instruction with minutes comes to the same, and the minutes tell the conversation
about it. -/
theorem Holds.run_carryOutLive_told {a : Assistant (StateM σ)} {instruction : String}
    {task : Assignment} {dispatch : Dispatch (StateM σ)} {world world' : σ} {g : Dialogue}
    (h : Holds a.model task.tools dispatch a.bound.1 [.system task.briefing, .user instruction]
      world g world') (before : List Happening) :
    (a.minuted.carryOutLive instruction task (Dispatch.minuted dispatch)).run ⟨before, world⟩ =
      (((a.carryOutLive instruction task dispatch).run world).1,
        ⟨before ++ StepScript.told task.tools [.system task.briefing, .user instruction] g.rounds
          g.last, ((a.carryOutLive instruction task dispatch).run world).2⟩) := by
  have hminuted : Holds a.minuted.model task.tools (Dispatch.minuted dispatch) a.minuted.bound.1
      [.system task.briefing, .user instruction] ⟨before, world⟩ g ⟨before ++ _, world'⟩ :=
    h.minuted before
  rw [h.run_carryOutLive, hminuted.run_carryOutLive]
  exact a.lifts_conclude instruction task _ _ _

/-- What is asked of the model and of the tools while an instruction is carried out is a well-formed
conversation: each request shows the briefing, the instruction, and each earlier reply with one
answer to each of its calls. -/
theorem Assistant.run_carryOutLive_minuted (a : Assistant (StateM σ)) (instruction : String)
    (task : Assignment) (dispatch : Dispatch (StateM σ)) (before : List Happening) (world : σ) :
    ∃ happenings rounds last,
      (a.minuted.carryOutLive instruction task (Dispatch.minuted dispatch)).run ⟨before, world⟩ =
        (((a.carryOutLive instruction task dispatch).run world).1,
          ⟨before ++ happenings, ((a.carryOutLive instruction task dispatch).run world).2⟩) ∧
      Minuted a instruction task happenings rounds last := by
  obtain ⟨g, world', hholds⟩ := Holds.exists_holds a.model task.tools dispatch a.bound.1
    [.system task.briefing, .user instruction] world
  exact ⟨_, g.rounds, g.last, hholds.run_carryOutLive_told before, hholds.minutedAs⟩

end StepScript
