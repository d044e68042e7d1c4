import StepScript.Proofs.CacheStore
import StepScript.Proofs.Dialogue
import StepScript.Proofs.JsonRecord

/-!
Conversations that are played back. A desk keeps track of what the model was asked and which calls
were made. When a conversation has been remembered, carrying out its instruction again makes the
same calls in the same order without the model, as long as calls succeed; at the first call that
fails the conversation takes place anew.
-/

set_option autoImplicit false
set_option relaxedAutoImplicit false

namespace StepScript

structure Talk where
  requests : List (List Message × List Tool)
  calls : List ToolCall

abbrev Table := Desk Talk

namespace Table

def hear (d : Table) (request : List Message × List Tool) : Table :=
  { d with rest := { d.rest with requests := d.rest.requests ++ [request] } }

def make (d : Table) (calls : List ToolCall) : Table :=
  { d with rest := { d.rest with calls := d.rest.calls ++ calls } }

private theorem make_make (d : Table) (calls calls' : List ToolCall) :
    (d.make calls).make calls' = d.make (calls ++ calls') := by
  simp [make]

private theorem make_nil (d : Table) : d.make [] = d := by
  simp [make]

end Table

/-- A model whose answers depend in any way on what has been said and done. -/
def answering (replies : Talk → Except ChatError Message) : ChatModel (StateM Table) where
  ask messages tools d :=
    (replies (d.hear (messages, tools)).rest, d.hear (messages, tools))

/-- Tools of which each call always ends in the same way. -/
def calling (ends : ToolCall → Except Trouble String) : Dispatch (StateM Table) :=
  fun call d => (ends call, d.make [call])

structure Partner where
  replies : Talk → Except ChatError Message
  roundLimit : Option Nat
  patience : Nat

def Partner.assistant (p : Partner) (cache : Cache) : Assistant (StateM Table) :=
  ⟨answering p.replies, cache, Desk.access, p.roundLimit, p.patience⟩

variable {ends : ToolCall → Except Trouble String} {d : Table}

private theorem Makes.eq_make {answers : List Answered} {d' : Table}
    (h : Makes (calling ends) d answers d') : d' = d.make (answers.map Answered.call) := by
  induction h with
  | nil d => exact (Table.make_nil d).symm
  | @cons d d₁ d₂ call result answers hrun _ ih =>
    obtain ⟨-, rfl⟩ := Prod.mk.inj hrun
    rw [ih, Table.make_make]
    rfl

private theorem Holds.files_and_calls {replies : Talk → Except ChatError Message}
    {tools : List Tool} {room : Nat} {messages : List Message} {g : Dialogue} {d' : Table}
    (h : Holds (answering replies) tools (calling ends) room messages d g d') :
    d'.files = d.files ∧ d'.rest.calls = d.rest.calls ++ g.calls := by
  induction h with
  | ends hask _ =>
    obtain ⟨-, rfl⟩ := Prod.mk.inj hask
    exact ⟨rfl, (List.append_nil _).symm⟩
  | @round room messages d d₁ d₂ d' r rounds last hask hanswers _ ih =>
    obtain ⟨-, rfl⟩ := Prod.mk.inj hask
    obtain rfl := hanswers.eq_make
    obtain ⟨hfiles, hcalls⟩ := ih
    refine ⟨hfiles, ?_⟩
    rw [hcalls, r.complete]
    exact List.append_assoc _ _ _

namespace Assistant

open Desk

variable {p : Partner} {cache : Cache}

private theorem exists_dialogue (p : Partner) (cache : Cache) (instruction : String)
    (task : Assignment) (d : Table) : ∃ (g : Dialogue) (between : Table), between.files = d.files ∧
      between.rest.calls = d.rest.calls ++ g.calls ∧
      ((p.assistant cache).converse task.tools (calling ends) (p.assistant cache).bound.2
        (p.assistant cache).bound.1 (.opening task.briefing instruction)).run d =
          (g.result (p.assistant cache).bound.2 [], between) ∧
      ((p.assistant cache).carryOutLive instruction task (calling ends)).run d =
        ((p.assistant cache).conclude instruction task
          (g.result (p.assistant cache).bound.2 [])).run between := by
  obtain ⟨g, between, hholds⟩ := Holds.exists_holds (p.assistant cache).model task.tools
    (calling ends) (p.assistant cache).bound.1 [.system task.briefing, .user instruction] d
  obtain ⟨hfiles, hmade⟩ := Holds.files_and_calls hholds
  exact ⟨g, between, hfiles, hmade, hholds.run_converse, hholds.run_carryOutLive⟩

private theorem yields_conclude (instruction : String) (task : Assignment)
    (ending : Except Failure (Message × List ToolCall)) (d : Table) :
    Yields ((p.assistant cache).conclude instruction task ending) d
      fun r d' => ∀ o, r = .ok o → o.result = none → ∃ reply calls, ending = .ok (reply, calls) ∧
        d' = if calls = [] then d
          else ((cache.write access task.scope instruction calls).run d).2 := by
  unfold conclude
  cases ending with
  | error f => exact yields_pure nofun
  | ok found =>
    obtain ⟨reply, calls⟩ := found
    simp only
    cases Conversation.outcomeOf instruction reply with
    | error f => exact yields_pure nofun
    | ok o =>
      simp only
      cases hworth : Conversation.isWorthKeeping o calls with
      | false =>
        refine yields_pure ?_
        rintro _ ⟨⟩ hresult
        simp only [Conversation.isWorthKeeping, hresult, Option.isNone_none, Bool.true_and,
          Bool.not_eq_false', List.isEmpty_iff] at hworth
        exact ⟨reply, calls, rfl, (if_pos hworth).symm⟩
      | true =>
        simp only [if_true]
        refine (yields_run (cache.write access task.scope instruction calls) d).bind ?_
        intro _ d' hpost
        refine yields_pure ?_
        rintro _ ⟨⟩ hresult
        have hne : calls ≠ [] := by
          rintro rfl
          simp [Conversation.isWorthKeeping] at hworth
        exact ⟨reply, calls, rfl, hpost.2.trans (if_neg hne).symm⟩

private theorem yields_carryOutLive (instruction : String) (task : Assignment) (d : Table) :
    Yields ((p.assistant cache).carryOutLive instruction task (calling ends)) d
      fun r d' => ∀ o, r = .ok o → o.result = none →
        ∃ made, ∃ between : Table, between.files = d.files ∧
          between.rest.calls = d.rest.calls ++ made ∧
          d' = if made = [] then between
            else ((cache.write access task.scope instruction made).run between).2 := by
  obtain ⟨g, between, hfiles, hmade, -, hrun⟩ := exists_dialogue p cache instruction task d
  unfold Yields
  rw [hrun]
  intro o hok hresult
  obtain ⟨reply, calls, hending, hend⟩ := yields_conclude instruction task _ between o hok hresult
  obtain rfl : calls = g.calls := Dialogue.calls_of_result hending
  exact ⟨g.calls, between, hfiles, hmade, hend⟩

private theorem run_carryOutLive_of_converse {instruction : String} {task : Assignment}
    {reply : Message} {calls : List ToolCall} {o : Outcome}
    (hconverse : (((p.assistant cache).converse task.tools (calling ends)
      (p.assistant cache).bound.2 (p.assistant cache).bound.1
      (.opening task.briefing instruction)).run d).1 = .ok (reply, calls))
    (houtcome : Conversation.outcomeOf instruction reply = .ok o)
    (hworth : Conversation.isWorthKeeping o calls = true) :
    ∃ between : Table, between.files = d.files ∧ between.rest.calls = d.rest.calls ++ calls ∧
      ((p.assistant cache).carryOutLive instruction task (calling ends)).run d =
        (.ok o, ((cache.write access task.scope instruction calls).run between).2) := by
  obtain ⟨g, between, hfiles, hmade, hends, hrun⟩ := exists_dialogue p cache instruction task d
  have hending : g.result (p.assistant cache).bound.2 [] = .ok (reply, calls) := by
    rw [← hconverse, hends]
  obtain rfl : calls = g.calls := Dialogue.calls_of_result hending
  refine ⟨between, hfiles, hmade, ?_⟩
  rw [hrun, hending]
  exact run_conclude_of_isWorthKeeping _ _ houtcome hworth between

/-- The calls up to the first one that fails, and that one. -/
def upToFailure (ends : ToolCall → Except Trouble String) : List ToolCall → List ToolCall
  | [] => []
  | call :: rest => if (ends call).isOk then call :: upToFailure ends rest else [call]

private theorem run_repeatCalls (calls : List ToolCall) (d : Table) :
    (repeatCalls (calling ends) calls).run d =
      (calls.all fun call => (ends call).isOk, d.make (upToFailure ends calls)) := by
  induction calls generalizing d with
  | nil => exact congrArg (Prod.mk true) (Table.make_nil d).symm
  | cons call rest ih =>
    have hcall : (calling ends call).run d = (ends call, d.make [call]) := rfl
    unfold repeatCalls
    rw [run_bind, hcall, List.all_cons, upToFailure]
    cases ends call with
    | error e => rfl
    | ok content =>
      simp only [ih, Table.make_make, Except.isOk, Except.toBool, Bool.true_and, if_true]
      rfl

end Assistant

/-- A live run that succeeds without results after some calls, and whose calls are written. -/
structure IsKept (p : Partner) (ends : ToolCall → Except Trouble String) (cache : Cache)
    (instruction : String) (task : Assignment) (d d' : Table) (calls : List ToolCall) : Prop where
  live : task.useCache = false
  succeeds : ∃ o, o.result = none ∧
    ((p.assistant cache).carryOut instruction task (calling ends)).run d =
      (.ok o, d')
  made : d'.rest.calls = d.rest.calls ++ calls
  nonempty : calls ≠ []
  /-- The write takes place when everything has been said and done. -/
  written : ((cache.write Desk.access task.scope instruction calls).run ⟨d.files, d'.rest⟩).1 =
    .ok ()

namespace IsKept

open Desk Assistant

variable {p p' : Partner} {cache : Cache} {instruction : String} {task task' : Assignment}
  {d d' : Table} {calls : List ToolCall}

private theorem replaces (h : IsKept p ends cache instruction task d d' calls)
    (hclean : d.Clean (cache.directory task.scope)) :
    ∃ between, d.files.Quiet (cache.directory task.scope) between ∧
      between.Alters (cache.directory task.scope) (Cache.fileName instruction)
        (some (Json.Codec.encode calls).indented.toUTF8) d'.files := by
  obtain ⟨o, hresult, hrun⟩ := h.succeeds
  have hlive := @yields_carryOutLive ends p cache instruction task d
  unfold Yields at hlive
  rw [← carryOut_live _ _ _ h.live, hrun] at hlive
  obtain ⟨made, between, hfiles, hmade, hend⟩ := hlive o rfl hresult
  have hclean' : between.Clean (cache.directory task.scope) := by
    unfold Clean
    rw [hfiles]
    exact hclean
  have hwrite : Replaces (cache.directory task.scope) instruction _ between _ _ :=
    yields_write hclean' made
  have hne : made ≠ [] := by
    rintro rfl
    rw [if_pos rfl] at hend
    have hsame := h.made.symm.trans (hend ▸ hmade)
    simp [h.nonempty] at hsame
  rw [if_neg hne] at hend
  dsimp only at hend
  rw [← hend] at hwrite
  have hcalls : made = calls := by
    have hsame := h.made.symm.trans ((congrArg Talk.calls hwrite.1).trans hmade)
    exact (List.append_cancel_left hsame).symm
  subst hcalls
  have hbetween : between = ⟨d.files, d'.rest⟩ := by
    rw [hwrite.1, ← hfiles]
  have hwritten := h.written
  rw [← hbetween] at hwritten
  obtain ⟨-, ⟨middle, -, hquiet, hput⟩ | ⟨⟨e, he⟩, -⟩⟩ := hwrite
  · rw [hfiles] at hquiet
    exact ⟨middle, hquiet, hput⟩
  · rw [he] at hwritten
    cases hwritten

private theorem yields_remembered
    (h : IsKept p ends cache instruction task d d' calls)
    (hclean : d.Clean (cache.directory task.scope)) :
    Yields ((p'.assistant cache).remembered task.scope instruction) d'
      fun found d₁ => found = calls ∧ d₁ = d' := by
  obtain ⟨between, hquiet, hput⟩ := h.replaces hclean
  have hclean' : d'.Clean (cache.directory task.scope) :=
    (hquiet.tidy hclean fun _ _ _ => trivial).of_alters hput (fun _ _ _ _ => trivial)
      fun _ _ => trivial
  unfold remembered
  refine (yields_read? hclean').bind ?_
  intro r _ hpost
  obtain ⟨rfl, hvalue⟩ := hpost
  rw [(hvalue calls).2 ⟨_, hput.has_same, ToolCall.readsBack calls⟩]
  exact yields_pure ⟨rfl, rfl⟩

private theorem run_carryOut
    (h : IsKept p ends cache instruction task d d' calls)
    (hclean : d.Clean (cache.directory task.scope)) (hcached : task'.useCache = true)
    (hscope : task'.scope = task.scope) :
    ((p'.assistant cache).carryOut instruction task' (calling ends)).run d' =
      if calls.all fun call => (ends call).isOk then (.ok .ok, d'.make (upToFailure ends calls))
      else ((p'.assistant cache).carryOutLive instruction task'
        (calling ends)).run (d'.make (upToFailure ends calls)) := by
  have hplay : Yields ((p'.assistant cache).playBack instruction task'
      (calling ends)) d' fun done d₁ => done = (calls.all fun call => (ends call).isOk) ∧
        d₁ = d'.make (upToFailure ends calls) := by
    unfold playBack
    rw [hscope]
    refine (h.yields_remembered hclean).bind ?_
    intro found d₁ hpost
    obtain ⟨hfound, hd₁⟩ := hpost
    rw [hfound, hd₁]
    cases hcalls : calls with
    | nil => exact absurd hcalls h.nonempty
    | cons call rest =>
      simp only
      rw [Yields, run_repeatCalls]
      exact ⟨rfl, rfl⟩
  obtain ⟨hdone, hend⟩ := hplay
  rw [carryOut_cached _ _ _ hcached, run_bind, hdone, hend]
  cases calls.all fun call => (ends call).isOk <;> rfl

private theorem upToFailure_append {before : List ToolCall} {failing : ToolCall}
    (after : List ToolCall) (hbefore : ∀ call ∈ before, (ends call).isOk)
    (hfailing : (ends failing).isOk = false) :
    upToFailure ends (before ++ failing :: after) = before ++ [failing] := by
  induction before with
  | nil => simp [upToFailure, hfailing]
  | cons call before ih =>
    have hcall := hbefore call List.mem_cons_self
    have hrest := ih fun other hother => hbefore other (List.mem_cons_of_mem call hother)
    simp [upToFailure, hcall, hrest]

private theorem upToFailure_eq_self (hall : ∀ call ∈ calls, (ends call).isOk) :
    upToFailure ends calls = calls := by
  induction calls with
  | nil => rfl
  | cons call rest ih =>
    have hcall := hall call List.mem_cons_self
    have hrest := ih fun other hother => hall other (List.mem_cons_of_mem call hother)
    simp [upToFailure, hcall, hrest]

end IsKept

open IsKept in
/-- After a kept run, the instruction is carried out again by making the same calls, without the
model; when one of them fails, the calls up to it are made and then the conversation takes place
anew. -/
theorem carryOut_after_kept {p : Partner} {cache : Cache} {instruction : String}
    {task task' : Assignment} {d d' : Table} {calls : List ToolCall}
    (h : IsKept p ends cache instruction task d d' calls)
    (hclean : d.Clean (cache.directory task.scope)) (hcached : task'.useCache = true)
    (hscope : task'.scope = task.scope) (p' : Partner) :
    ((∀ call ∈ calls, (ends call).isOk) →
      ((p'.assistant cache).carryOut instruction task' (calling ends)).run d' =
        (.ok .ok, d'.make calls)) ∧
    ∀ before failing after, calls = before ++ failing :: after →
      (∀ call ∈ before, (ends call).isOk) → (ends failing).isOk = false →
        ((p'.assistant cache).carryOut instruction task' (calling ends)).run d' =
          ((p'.assistant cache).carryOutLive instruction task' (calling ends)).run
            (d'.make (before ++ [failing])) := by
  rw [h.run_carryOut hclean hcached hscope]
  constructor
  · intro hall
    rw [if_pos (List.all_eq_true.2 hall), upToFailure_eq_self hall]
  · rintro before failing after rfl hbefore hfailing
    have hsome : ¬ ((before ++ failing :: after).all fun call => (ends call).isOk) = true := by
      simp [hfailing]
    rw [if_neg hsome, upToFailure_append after hbefore hfailing]

/-! ## A conversation with one call -/

def openCall : ToolCall := .function "call_1" "open" "\x7b\x7d"

def onceAsking : Partner where
  replies talk :=
    if talk.calls = [] then .ok ⟨.assistant, none, [openCall], none⟩
    else .ok ⟨.assistant, some "\x7b\"success\": true\x7d", [], none⟩
  roundLimit := none
  patience := 3

def doneReply : Message := ⟨.assistant, some "\x7b\"success\": true\x7d", [], none⟩

def bareTable : Table := ⟨⟨.directory [], [], 0⟩, ⟨[], []⟩⟩

private theorem clean_bareTable (dir : Path) : bareTable.Clean dir :=
  FileTree.tidy_of_none fun place name _ => by
    cases place <;> rfl

def openTask (useCache : Bool) : Assignment := ⟨"system", [], useCache, "llm"⟩

def liveRun (ends : ToolCall → Except Trouble String) : Except Failure Outcome × Table :=
  ((onceAsking.assistant ⟨⟨"cache"⟩⟩).carryOut "open" (openTask false) (calling ends)).run bareTable

private theorem isKept_liveRun {ends : ToolCall → Except Trouble String}
    (hconverse : (((onceAsking.assistant ⟨⟨"cache"⟩⟩).converse (openTask false).tools (calling ends)
      (onceAsking.assistant ⟨⟨"cache"⟩⟩).bound.2 (onceAsking.assistant ⟨⟨"cache"⟩⟩).bound.1
      (.opening (openTask false).briefing "open")).run bareTable).1 = .ok (doneReply, [openCall]))
    (hwritten : ((Cache.write ⟨⟨"cache"⟩⟩ Desk.access (openTask false).scope "open" [openCall]).run
      (⟨bareTable.files, (liveRun ends).2.rest⟩ : Table)).1 = .ok ()) :
    IsKept onceAsking ends ⟨⟨"cache"⟩⟩ "open" (openTask false) bareTable (liveRun ends).2
      [openCall] := by
  have houtcome : Conversation.outcomeOf "open" doneReply = .ok .ok := by decide +kernel
  obtain ⟨between, hfiles, hmade, hrun⟩ :=
    Assistant.run_carryOutLive_of_converse hconverse houtcome rfl
  have hend : liveRun ends = _ := hrun
  have hpair : liveRun ends = (.ok .ok, (liveRun ends).2) := by rw [hend]
  have hclean : between.Clean (Cache.directory ⟨⟨"cache"⟩⟩ (openTask false).scope) := by
    unfold Desk.Clean
    rw [hfiles]
    exact clean_bareTable _
  have hwrite : Desk.Replaces _ "open" _ between _ _ := Desk.yields_write hclean [openCall]
  refine ⟨rfl, ⟨.ok, rfl, hpair⟩, ?_, by decide, hwritten⟩
  rw [hend, hwrite.1, hmade]

set_option maxRecDepth 20000 in
theorem carryOut_after_opening :
    ((onceAsking.assistant ⟨⟨"cache"⟩⟩).carryOut "open" (openTask true)
      (calling fun _ => .ok "done")).run (liveRun fun _ => .ok "done").2 =
      (.ok .ok, (liveRun fun _ => .ok "done").2.make [openCall]) := by
  have hkept : IsKept onceAsking (fun _ => .ok "done") _ _ _ _ _ _ :=
    isKept_liveRun (by decide +kernel) (by decide +kernel)
  have hcached : (openTask true).useCache = true := rfl
  have hscope : (openTask true).scope = (openTask false).scope := rfl
  have hok : ∀ call ∈ [openCall], ((fun _ => .ok "done" : ToolCall → Except Trouble String)
      call).isOk := fun _ _ => rfl
  exact (carryOut_after_kept hkept (clean_bareTable _) hcached hscope onceAsking).1 hok

def silent : Partner := ⟨fun _ => .error (.request "no reply"), none, 3⟩

set_option maxRecDepth 20000 in
/-- After a run that got over a failing call, carrying out the instruction again needs the model. -/
theorem carryOut_after_failed_opening :
    ¬ ∀ (p p' : Partner) (ends : ToolCall → Except Trouble String) (cache : Cache)
      (instruction : String) (task task' : Assignment) (d d' : Table) (calls : List ToolCall),
      IsKept p ends cache instruction task d d' calls → d.Clean (cache.directory task.scope) →
      task'.useCache = true → task'.scope = task.scope →
      ((p'.assistant cache).carryOut instruction task' (calling ends)).run d' =
        (.ok .ok, d'.make calls) := by
  intro h
  have hkept : IsKept onceAsking (fun _ => .error (.of "boom")) _ _ _ _ _ _ :=
    isKept_liveRun (by decide +kernel) (by decide +kernel)
  have hcached : (openTask true).useCache = true := rfl
  have hscope : (openTask true).scope = (openTask false).scope := rfl
  have hend := h _ silent _ _ _ _ _ _ _ _ hkept (clean_bareTable _) hcached hscope
  rw [hkept.run_carryOut (clean_bareTable _) hcached hscope] at hend
  -- The model is asked after all, and as it is silent the instruction is not carried out.
  refine absurd (congrArg Prod.fst hend) ?_
  decide +kernel

end StepScript
