import StepScript.Files.Tree
import StepScript.Proofs.Minutes

/-!
Conversations under a limit. How the first rounds of a conversation go does not depend on the limit,
which only says how many of them there are. When one more reply asks for tools the conversation is
given up, and nothing of that reply is done; a conversation that ends before is the same as one
without a limit.
-/

set_option autoImplicit false
set_option relaxedAutoImplicit false

namespace StepScript

variable {σ : Type}

/-! ## Conversations without a limit -/

inductive Unfolds (model : ChatModel (StateM σ)) (tools : List Tool)
    (dispatch : Dispatch (StateM σ)) : List Message → σ → List Round → List Message → σ → Prop
  | nil (messages : List Message) (world : σ) :
      Unfolds model tools dispatch messages world [] messages world
  | cons {messages messages' : List Message} {world world₁ world₂ world' : σ} {r : Round}
      {rounds : List Round} (hask : (model.ask messages tools).run world = (.ok r.reply, world₁))
      (hanswers : Makes dispatch world₁ r.answers world₂)
      (hrest : Unfolds model tools dispatch (messages ++ r.messages) world₂ rounds messages'
        world') :
      Unfolds model tools dispatch messages world (r :: rounds) messages' world'

private theorem Makes.unique {dispatch : Dispatch (StateM σ)} {world world' world'' : σ}
    {answers answers' : List Answered} (h : Makes dispatch world answers world')
    (h' : Makes dispatch world answers' world'')
    (hcalls : answers.map Answered.call = answers'.map Answered.call) :
    answers = answers' ∧ world' = world'' := by
  induction h generalizing answers' with
  | nil world =>
    cases h' with
    | nil => exact ⟨rfl, rfl⟩
    | cons _ _ => cases hcalls
  | cons hrun _ ih =>
    cases h' with
    | nil => cases hcalls
    | cons hrun' hrest' =>
      obtain ⟨rfl, hrest⟩ := List.cons.inj hcalls
      obtain ⟨rfl, rfl⟩ := Prod.mk.inj (hrun.symm.trans hrun')
      obtain ⟨rfl, rfl⟩ := ih hrest' hrest
      exact ⟨rfl, rfl⟩

private theorem Round.unique {dispatch : Dispatch (StateM σ)} {world world' world'' : σ}
    {r r' : Round} (hreply : r.reply = r'.reply) (h : Makes dispatch world r.answers world')
    (h' : Makes dispatch world r'.answers world'') : r = r' ∧ world' = world'' := by
  have hcalls : r.answers.map Answered.call = r'.answers.map Answered.call := by
    rw [r.complete, r'.complete, hreply]
  obtain ⟨hanswers, rfl⟩ := h.unique h' hcalls
  cases r
  cases r'
  cases hreply
  cases hanswers
  exact ⟨rfl, rfl⟩

namespace Unfolds

variable {model : ChatModel (StateM σ)} {tools : List Tool} {dispatch : Dispatch (StateM σ)}
  {messages messages₁ messages₂ : List Message} {world world₁ world₂ : σ}
  {rounds rounds' : List Round}

private theorem exists_append
    (h : Unfolds model tools dispatch messages world rounds messages₁ world₁)
    (h' : Unfolds model tools dispatch messages world rounds' messages₂ world₂)
    (hle : rounds.length ≤ rounds'.length) :
    ∃ more, rounds' = rounds ++ more ∧
      Unfolds model tools dispatch messages₁ world₁ more messages₂ world₂ := by
  induction h generalizing rounds' with
  | nil messages world => exact ⟨rounds', rfl, h'⟩
  | @cons messages _ world _ _ _ r rounds hask hanswers _ ih =>
    cases h' with
    | nil => exact absurd hle (Nat.not_succ_le_zero _)
    | @cons _ _ _ _ _ _ r' rounds' hask' hanswers' hrest' =>
      obtain ⟨hreply, rfl⟩ := Prod.mk.inj (hask.symm.trans hask')
      obtain ⟨rfl, rfl⟩ := Round.unique (Except.ok.inj hreply) hanswers hanswers'
      obtain ⟨more, rfl, hmore⟩ := ih hrest' (Nat.le_of_succ_le_succ hle)
      exact ⟨more, rfl, hmore⟩

private theorem append (h : Unfolds model tools dispatch messages world rounds messages₁ world₁)
    (h' : Unfolds model tools dispatch messages₁ world₁ rounds' messages₂ world₂) :
    Unfolds model tools dispatch messages world (rounds ++ rounds') messages₂ world₂ := by
  induction h with
  | nil _ _ => exact h'
  | cons hask hanswers _ ih => exact .cons hask hanswers (ih h')

private theorem exists_take
    (h : Unfolds model tools dispatch messages world rounds messages₁ world₁)
    (k : Nat) : ∃ messages₂ world₂,
      Unfolds model tools dispatch messages world (rounds.take k) messages₂ world₂ := by
  induction h generalizing k with
  | nil messages world => exact ⟨messages, world, by simpa using .nil messages world⟩
  | @cons messages _ world _ _ _ r rounds hask hanswers _ ih =>
    cases k with
    | zero => exact ⟨messages, world, .nil messages world⟩
    | succ k =>
      obtain ⟨messages₂, world₂, hrest⟩ := ih k
      exact ⟨messages₂, world₂, .cons hask hanswers hrest⟩

private theorem exists_snoc
    (h : Unfolds model tools dispatch messages world rounds messages₁ world₁)
    {reply : Message} (hask : (model.ask messages₁ tools).run world₁ = (.ok reply, world₂))
    (hasks : reply.toolCalls ≠ []) : ∃ r messages₃ world₃,
      Unfolds model tools dispatch messages world (rounds ++ [r]) messages₃ world₃ := by
  obtain ⟨answers, world₃, hcomplete, hmakes⟩ :=
    Makes.exists_makes dispatch reply.toolCalls world₂
  exact ⟨⟨reply, answers, hasks, hcomplete⟩, _, world₃, h.append (.cons hask hmakes (.nil _ _))⟩

end Unfolds

/-! ## Conversations under a limit -/

namespace Holds

variable {model : ChatModel (StateM σ)} {tools : List Tool} {dispatch : Dispatch (StateM σ)}
  {room : Nat} {messages messages₁ : List Message} {world world₁ world' : σ}

private theorem unfolds {g : Dialogue}
    (h : Holds model tools dispatch room messages world g world') :
    ∃ messages₁ world₁, Unfolds model tools dispatch messages world g.rounds messages₁ world₁ ∧
      (model.ask messages₁ tools).run world₁ = (g.last, world') := by
  induction h with
  | ends hask _ => exact ⟨_, _, .nil _ _, hask⟩
  | round hask hanswers _ ih =>
    obtain ⟨messages₁, world₁, hrest, hlast⟩ := ih
    exact ⟨messages₁, world₁, .cons hask hanswers hrest, hlast⟩

private theorem of_unfolds {rounds : List Round} {last : Except ChatError Message}
    (h : Unfolds model tools dispatch messages world rounds messages₁ world₁)
    (hlast : (model.ask messages₁ tools).run world₁ = (last, world'))
    (hroom : rounds.length ≤ room)
    (hends : ∀ reply, last = .ok reply → reply.toolCalls ≠ [] → rounds.length = room) :
    Holds model tools dispatch room messages world ⟨rounds, last⟩ world' := by
  induction h generalizing room with
  | nil _ _ =>
    exact .ends hlast fun reply hreply hasks => (hends reply hreply hasks).symm
  | @cons _ _ _ _ _ _ r rounds hask hanswers _ ih =>
    cases room with
    | zero => exact absurd hroom (Nat.not_succ_le_zero _)
    | succ room =>
      refine .round hask hanswers (ih hlast (Nat.le_of_succ_le_succ hroom) ?_)
      intro reply hreply hasks
      exact Nat.succ.inj (hends reply hreply hasks)

/-- A conversation goes in one way only. -/
theorem unique {g g' : Dialogue} {world'' : σ}
    (h : Holds model tools dispatch room messages world g world')
    (h' : Holds model tools dispatch room messages world g' world'') :
    g = g' ∧ world' = world'' := by
  -- The same is asked next in both, so they end here both, or go on with the same round.
  induction h generalizing g' with
  | ends hask hroom =>
    cases h' with
    | ends hask' _ =>
      obtain ⟨rfl, rfl⟩ := Prod.mk.inj (hask.symm.trans hask')
      exact ⟨rfl, rfl⟩
    | @round _ _ _ _ _ _ r _ _ hask' _ _ =>
      obtain ⟨hlast, -⟩ := Prod.mk.inj (hask.symm.trans hask')
      exact absurd (hroom r.reply hlast r.asks) (Nat.succ_ne_zero _)
  | @round _ _ _ _ _ _ r _ _ hask hanswers _ ih =>
    cases h' with
    | ends hask' hroom' =>
      obtain ⟨hlast, -⟩ := Prod.mk.inj (hask'.symm.trans hask)
      exact absurd (hroom' r.reply hlast r.asks) (Nat.succ_ne_zero _)
    | @round _ _ _ _ _ _ r' _ _ hask' hanswers' hrest' =>
      obtain ⟨hreply, rfl⟩ := Prod.mk.inj (hask.symm.trans hask')
      obtain ⟨rfl, rfl⟩ := Round.unique (Except.ok.inj hreply) hanswers hanswers'
      obtain ⟨hrounds, rfl⟩ := ih hrest'
      obtain ⟨rfl, rfl⟩ := Dialogue.mk.inj hrounds
      exact ⟨rfl, rfl⟩

end Holds

def ChatModel.AlwaysAnswers (model : ChatModel (StateM σ)) : Prop :=
  ∀ messages tools world, ∃ reply, ((model.ask messages tools).run world).1 = .ok reply

namespace Assistant

def limitedTo (a : Assistant (StateM σ)) (limit : Nat) : Assistant (StateM σ) :=
  { a with roundLimit := some limit }

def unlimited (a : Assistant (StateM σ)) (patience : Nat) : Assistant (StateM σ) :=
  { a with roundLimit := none, patience := patience }

section Conversations

variable (a : Assistant (StateM σ)) (instruction : String) (task : Assignment)
  (dispatch : Dispatch (StateM σ)) (world : σ)

def BeginsWith (rounds : List Round) : Prop :=
  ∃ messages' world', Unfolds a.model task.tools dispatch
    [.system task.briefing, .user instruction] world rounds messages' world'

variable {a instruction task dispatch world} in
private theorem BeginsWith.unique {rounds rounds' : List Round}
    (h : a.BeginsWith instruction task dispatch world rounds)
    (h' : a.BeginsWith instruction task dispatch world rounds')
    (hlength : rounds.length = rounds'.length) : rounds = rounds' := by
  obtain ⟨messages₁, world₁, hunfolds⟩ := h
  obtain ⟨messages₂, world₂, hunfolds'⟩ := h'
  obtain ⟨more, rfl, -⟩ := hunfolds.exists_append hunfolds' (Nat.le_of_eq hlength)
  obtain rfl : more = [] := by simpa using hlength
  rw [List.append_nil]

def AsksFor (count : Nat) : Prop :=
  ∃ rounds, rounds.length = count ∧ a.BeginsWith instruction task dispatch world rounds

variable {a instruction task dispatch world} in
private theorem AsksFor.mono {count count' : Nat}
    (h : a.AsksFor instruction task dispatch world count) (hle : count' ≤ count) :
    a.AsksFor instruction task dispatch world count' := by
  obtain ⟨rounds, rfl, messages₁, world₁, hunfolds⟩ := h
  obtain ⟨messages₂, world₂, htake⟩ := hunfolds.exists_take count'
  exact ⟨rounds.take count', List.length_take_of_le hle, messages₂, world₂, htake⟩

private abbrev Converses (room : Nat) (g : Dialogue) (world' : σ) : Prop :=
  Holds a.model task.tools dispatch room [.system task.briefing, .user instruction] world g world'

end Conversations

namespace Converses

variable {a : Assistant (StateM σ)} {instruction : String} {task : Assignment}
  {dispatch : Dispatch (StateM σ)} {room : Nat} {world world' : σ} {g : Dialogue}

private theorem beginsWith (h : a.Converses instruction task dispatch world room g world') :
    a.BeginsWith instruction task dispatch world g.rounds := by
  obtain ⟨messages₁, world₁, hunfolds, -⟩ := h.unfolds
  exact ⟨messages₁, world₁, hunfolds⟩

private theorem asks_of_lt (h : a.Converses instruction task dispatch world room g world')
    {rounds : List Round} (hbegins : a.BeginsWith instruction task dispatch world rounds)
    (hlt : g.rounds.length < rounds.length) :
    ∃ reply, g.last = .ok reply ∧ reply.toolCalls ≠ [] := by
  obtain ⟨messages₁, world₁, hunfolds, hlast⟩ := h.unfolds
  obtain ⟨messages₂, world₂, hmore⟩ := hbegins
  obtain ⟨more, rfl, hrest⟩ := hunfolds.exists_append hmore (Nat.le_of_lt hlt)
  cases hrest with
  | nil => simp at hlt
  | @cons _ _ _ _ _ _ r _ hask _ _ =>
    have hreply : g.last = .ok r.reply := (Prod.mk.inj (hlast.symm.trans hask)).1
    exact ⟨r.reply, hreply, r.asks⟩

private theorem le_length_rounds_iff (h : a.Converses instruction task dispatch world room g world')
    (count : Nat) : count ≤ g.rounds.length ↔
      count ≤ room ∧ a.AsksFor instruction task dispatch world count := by
  constructor
  · intro hle
    have hall : a.AsksFor instruction task dispatch world g.rounds.length :=
      ⟨g.rounds, rfl, h.beginsWith⟩
    exact ⟨Nat.le_trans hle h.length_rounds.1, hall.mono hle⟩
  · rintro ⟨hroom, rounds, rfl, hbegins⟩
    refine Nat.le_of_not_lt fun hlt => ?_
    -- The last reply asks for tools, so there is no room for the rounds behind it.
    obtain ⟨reply, hreply, hasks⟩ := h.asks_of_lt hbegins hlt
    have hfull := h.length_rounds.2 reply hreply hasks
    omega

private theorem length_rounds_eq_min (h : a.Converses instruction task dispatch world room g world')
    {count : Nat} (hcount : a.AsksFor instruction task dispatch world count)
    (hnext : ¬ a.AsksFor instruction task dispatch world (count + 1)) :
    g.rounds.length = min room count := by
  have hroom : g.rounds.length ≤ room := h.length_rounds.1
  have hle : g.rounds.length ≤ count := by
    refine Nat.le_of_not_lt fun hlt => hnext ?_
    exact ((h.le_length_rounds_iff (count + 1)).1 hlt).2
  have hge : min room count ≤ g.rounds.length :=
    (h.le_length_rounds_iff _).2 ⟨Nat.min_le_left _ _, hcount.mono (Nat.min_le_right _ _)⟩
  omega

private theorem exists_last_asks_iff
    (h : a.Converses instruction task dispatch world room g world') :
    (∃ reply, g.last = .ok reply ∧ reply.toolCalls ≠ []) ↔
      a.AsksFor instruction task dispatch world (room + 1) := by
  constructor
  · rintro ⟨reply, hreply, hasks⟩
    obtain ⟨messages₁, world₁, hunfolds, hlast⟩ := h.unfolds
    obtain ⟨r, messages₂, world₂, hsnoc⟩ := hunfolds.exists_snoc (hreply ▸ hlast) hasks
    have hlength : (g.rounds ++ [r]).length = room + 1 := by
      rw [List.length_append, h.length_rounds.2 reply hreply hasks, List.length_singleton]
    exact ⟨_, hlength, messages₂, world₂, hsnoc⟩
  · rintro ⟨rounds, hlength, hbegins⟩
    have hle := h.length_rounds.1
    exact h.asks_of_lt hbegins (by omega)

end Converses

/-! ## What comes before a conversation -/

/-- What is remembered is played back, if that is asked for. The answer is whether that was all. -/
def replay {m : Type → Type} [Monad m] (a : Assistant m) (instruction : String) (task : Assignment)
    (dispatch : Dispatch m) : m Bool :=
  if task.useCache then a.playBack instruction task dispatch else return false

variable (a : Assistant (StateM σ)) (instruction : String) (task : Assignment)
  (dispatch : Dispatch (StateM σ))

private theorem carryOut_eq : a.carryOut instruction task dispatch =
    a.replay instruction task dispatch >>= fun played =>
      if played then pure (.ok .ok) else a.carryOutLive instruction task dispatch := by
  unfold replay
  cases hcache : task.useCache with
  | false => exact a.carryOut_live instruction dispatch hcache
  | true => exact a.carryOut_cached instruction dispatch hcache

private theorem run_repeatCalls_minuted (calls : List ToolCall) (before : List Happening)
    (world : σ) :
    ∃ repeated : List Answered, repeated.map Answered.call <+: calls ∧
      (repeatCalls (Dispatch.minuted dispatch) calls).run ⟨before, world⟩ =
        (((repeatCalls dispatch calls).run world).1,
          ⟨before ++ repeated.map .called, ((repeatCalls dispatch calls).run world).2⟩) := by
  induction calls generalizing before world with
  | nil =>
    refine ⟨[], List.prefix_rfl, ?_⟩
    rw [List.map_nil, List.append_nil]
    rfl
  | cons call calls ih =>
    rcases hcall : (dispatch call).run world with ⟨result, world₁⟩
    have hminuted : (Dispatch.minuted dispatch call).run ⟨before, world⟩ =
        (result, ⟨before ++ [.called ⟨call, result⟩], world₁⟩) := Log.run_noting _ hcall before
    unfold repeatCalls
    rw [run_bind_of hcall, run_bind_of hminuted]
    cases result with
    | error t => exact ⟨[⟨call, .error t⟩], List.prefix_append [call] calls, rfl⟩
    | ok content =>
      obtain ⟨repeated, hprefix, hrest⟩ := ih (before ++ [.called ⟨call, .ok content⟩]) world₁
      rw [List.append_assoc] at hrest
      have hfirst : call :: repeated.map Answered.call <+: call :: calls :=
        List.cons_prefix_cons.2 ⟨rfl, hprefix⟩
      exact ⟨⟨call, .ok content⟩ :: repeated, hfirst, hrest⟩

private theorem lifts_remembered (scope : String) :
    Lifts (a.remembered scope instruction) (a.minuted.remembered scope instruction) := by
  unfold remembered Cache.read?
  refine .bind (.bind (.lift _) fun read => ?_) fun found => ?_
  · cases read with
    | error e => cases e <;> exact .pure _
    | ok bytes =>
      simp only
      split <;> exact .pure _
  · cases found with
    | error e => exact .pure _
    | ok found => exact .pure _

def repeatable (world : σ) : List ToolCall :=
  if task.useCache then ((a.remembered task.scope instruction).run world).1 else []

private theorem run_replay_minuted (world : σ) : ∃ repeated : List Answered,
    repeated.map Answered.call <+: a.repeatable instruction task world ∧
      (a.minuted.replay instruction task (Dispatch.minuted dispatch)).run ⟨[], world⟩ =
        (((a.replay instruction task dispatch).run world).1,
          ⟨repeated.map .called, ((a.replay instruction task dispatch).run world).2⟩) := by
  unfold replay repeatable
  cases task.useCache with
  | false => exact ⟨[], List.prefix_rfl, rfl⟩
  | true =>
    rcases hread : (a.remembered task.scope instruction).run world with ⟨calls, world₁⟩
    have hread' := a.lifts_remembered instruction task.scope [] world
    rw [hread] at hread'
    simp only [if_true]
    unfold playBack
    rw [run_bind_of hread, run_bind_of hread']
    cases calls with
    | nil => exact ⟨[], List.prefix_rfl, rfl⟩
    | cons call calls => exact run_repeatCalls_minuted dispatch (call :: calls) [] world₁

/-! ## The end under a limit -/

private theorem exists_unreadableReply_of_recordIn {α : Type} [Json.Codec α] {text : String}
    {e : ChatError} (h : (Json.recordIn text : Except ChatError α) = .error e) :
    ∃ detail, e = .unreadableReply detail := by
  unfold Json.recordIn Json.objectIn Json.unreadable at h
  split at h
  next v hobject =>
    split at h
    next => cases h
    next => exact ⟨_, (Except.error.inj h).symm⟩
  next e' hobject =>
    obtain rfl : e' = e := Except.error.inj h
    split at hobject
    next => exact ⟨_, (Except.error.inj hobject).symm⟩
    next =>
      split at hobject
      next => cases hobject
      next => exact ⟨_, (Except.error.inj hobject).symm⟩

private theorem outcomeOf_ne_tooManyRounds (reply : Message) (limit : Nat) :
    Conversation.outcomeOf instruction reply ≠ .error (.chat (.tooManyRounds limit)) := by
  intro h
  unfold Conversation.outcomeOf at h
  split at h
  next e hrecord =>
    obtain ⟨detail, rfl⟩ := exists_unreadableReply_of_recordIn hrecord
    cases h
  next o hrecord =>
    cases hsuccess : o.success with
    | false => simp [hsuccess] at h
    | true => simp [hsuccess] at h

variable (world : σ)

/-- How a conversation goes in which so many replies may ask for tools: which of them are honoured,
what is asked and done, and whether it is given up. -/
structure StaysWithin (limit : Nat) (happenings : List Happening) (rounds : List Round)
    (result : Except Failure Outcome) : Prop where
  begins : a.BeginsWith instruction task dispatch world rounds
  length_eq : ∀ count, a.AsksFor instruction task dispatch world count →
    ¬ a.AsksFor instruction task dispatch world (count + 1) → rounds.length = min limit count
  endless : (∀ count, a.AsksFor instruction task dispatch world count) → rounds.length = limit
  requests : (requestsIn happenings).length = rounds.length + 1
  requests_le : (requestsIn happenings).length ≤ limit + 1
  calls : (answersIn happenings).map Answered.call = rounds.flatMap fun r => r.reply.toolCalls
  givenUp : result = .error (.chat (.tooManyRounds limit)) ↔
    a.AsksFor instruction task dispatch world (limit + 1)

variable {a instruction task dispatch world}

namespace Converses

variable {world' : σ} {g : Dialogue} {limit : Nat}

private theorem exists_last (h : a.Converses instruction task dispatch world limit g world')
    (hanswers : a.model.AlwaysAnswers) :
    ∃ reply, g.last = .ok reply ∧ (reply.toolCalls ≠ [] ↔
      a.AsksFor instruction task dispatch world (limit + 1)) := by
  obtain ⟨messages₁, world₁, hunfolds, hlast⟩ := h.unfolds
  obtain ⟨reply, hreply⟩ := hanswers messages₁ task.tools world₁
  have hok : g.last = .ok reply := by
    rw [← hreply, hlast]
  refine ⟨reply, hok, ?_⟩
  rw [← h.exists_last_asks_iff]
  constructor
  · intro hasks
    exact ⟨reply, hok, hasks⟩
  · rintro ⟨reply', hok', hasks⟩
    obtain rfl : reply = reply' := Except.ok.inj (hok.symm.trans hok')
    exact hasks

private theorem staysWithin (h : a.Converses instruction task dispatch world limit g world')
    (hanswers : a.model.AlwaysAnswers) :
    a.StaysWithin instruction task dispatch world limit
      (told task.tools [.system task.briefing, .user instruction] g.rounds g.last) g.rounds
      (((a.limitedTo limit).carryOutLive instruction task dispatch).run world).1 := by
  have hlimited : (a.limitedTo limit).Converses instruction task dispatch world
      (a.limitedTo limit).bound.1 g world' := h
  have hminutes := hlimited.minutedAs
  have hrequests : (requestsIn (told task.tools [.system task.briefing, .user instruction] g.rounds
      g.last)).length = g.rounds.length + 1 := by
    rw [hminutes.requests, List.length_map, List.length_inits]
  obtain ⟨reply, hlast, hasks⟩ := h.exists_last hanswers
  refine ⟨h.beginsWith, fun count => h.length_rounds_eq_min, ?_, hrequests, ?_, hminutes.calls, ?_⟩
  · intro hall
    exact Nat.le_antisymm h.length_rounds.1 ((h.le_length_rounds_iff limit).2 ⟨Nat.le_refl _, hall _⟩)
  · rw [hrequests]
    exact Nat.succ_le_succ h.length_rounds.1
  · rw [hlimited.run_carryOutLive, ← hasks, Dialogue.result, hlast]
    by_cases hreply : reply.toolCalls = []
    · simp only [hreply, if_true, ne_eq, not_true_eq_false, iff_false]
      rw [run_conclude_fst]
      exact outcomeOf_ne_tooManyRounds instruction reply limit
    · simp only [hreply, if_false, ne_eq, not_false_eq_true, iff_true]
      rfl

private theorem run_unlimited (h : a.Converses instruction task dispatch world limit g world')
    (hanswers : a.model.AlwaysAnswers)
    (hends : ¬ a.AsksFor instruction task dispatch world (limit + 1)) {patience : Nat}
    (hpatience : limit ≤ patience) :
    ((a.unlimited patience).carryOutLive instruction task dispatch).run world =
        ((a.limitedTo limit).carryOutLive instruction task dispatch).run world ∧
      ∀ before, ((a.unlimited patience).minuted.carryOutLive instruction task
          (Dispatch.minuted dispatch)).run ⟨before, world⟩ =
        ((a.limitedTo limit).minuted.carryOutLive instruction task
          (Dispatch.minuted dispatch)).run ⟨before, world⟩ := by
  obtain ⟨reply, hlast, hasks⟩ := h.exists_last hanswers
  have hplain : reply.toolCalls = [] := by
    rw [← hasks] at hends
    exact not_not.1 hends
  have hlimited : (a.limitedTo limit).Converses instruction task dispatch world
      (a.limitedTo limit).bound.1 g world' := h
  have hunlimited : (a.unlimited patience).Converses instruction task dispatch world
      (a.unlimited patience).bound.1 g world' := by
    obtain ⟨messages₁, world₁, hunfolds, hask⟩ := h.unfolds
    refine .of_unfolds hunfolds hask (Nat.le_trans h.length_rounds.1 hpatience) ?_
    intro reply' hreply' hasks'
    obtain rfl : reply = reply' := Except.ok.inj (hlast.symm.trans hreply')
    exact absurd hplain hasks'
  have hresult (stop stop' : Failure) : g.result stop [] = g.result stop' [] := by
    simp only [Dialogue.result, hlast, hplain, if_true]
  have hsame : ((a.unlimited patience).carryOutLive instruction task dispatch).run world =
      ((a.limitedTo limit).carryOutLive instruction task dispatch).run world := by
    rw [hunlimited.run_carryOutLive, hlimited.run_carryOutLive, hresult]
    rfl
  refine ⟨hsame, fun before => ?_⟩
  rw [hunlimited.run_carryOutLive_told, hlimited.run_carryOutLive_told, hsame]

end Converses

/-! ## Whole runs -/

/-- What carrying out an instruction asks, and what it comes to; with minutes or without. -/
structure CarriesOut (a : Assistant (StateM σ)) (instruction : String) (task : Assignment)
    (dispatch : Dispatch (StateM σ)) (world : σ) (happenings : List Happening)
    (result : Except Failure Outcome) (world' : σ) : Prop where
  plain : (a.carryOut instruction task dispatch).run world = (result, world')
  minuted : (a.minuted.carryOut instruction task (Dispatch.minuted dispatch)).run ⟨[], world⟩ =
    (result, ⟨happenings, world'⟩)

namespace CarriesOut

variable {world₁ world' : σ} {happenings before : List Happening} {result : Except Failure Outcome}

private theorem of_playedBack
    (hplain : (a.replay instruction task dispatch).run world = (true, world₁))
    (hminuted : (a.minuted.replay instruction task (Dispatch.minuted dispatch)).run ⟨[], world⟩ =
      (true, ⟨happenings, world₁⟩)) :
    a.CarriesOut instruction task dispatch world happenings (.ok .ok) world₁ where
  plain := by
    rw [carryOut_eq, run_bind_of hplain]
    rfl
  minuted := by
    rw [carryOut_eq, run_bind_of hminuted]
    rfl

private theorem of_live
    (hplain : (a.replay instruction task dispatch).run world = (false, world₁))
    (hminuted : (a.minuted.replay instruction task (Dispatch.minuted dispatch)).run ⟨[], world⟩ =
      (false, ⟨before, world₁⟩))
    (hlive : (a.carryOutLive instruction task dispatch).run world₁ = (result, world'))
    (htold : (a.minuted.carryOutLive instruction task (Dispatch.minuted dispatch)).run
      ⟨before, world₁⟩ = (result, ⟨happenings, world'⟩)) :
    a.CarriesOut instruction task dispatch world happenings result world' where
  plain := by
    rw [carryOut_eq, run_bind_of hplain]
    exact hlive
  minuted := by
    rw [carryOut_eq, run_bind_of hminuted]
    exact htold

end CarriesOut

/-- A limit on the replies that may ask for tools is kept: the calls of the first of them are made,
up to the limit, and of no others, with at most one more request than that. The conversation is given
up exactly when one more reply asks for tools than may; else everything is as it is without a
limit. -/
theorem carryOut_limitedTo (a : Assistant (StateM σ)) (limit : Nat)
    (hanswers : a.model.AlwaysAnswers) (instruction : String) (task : Assignment)
    (dispatch : Dispatch (StateM σ)) (world : σ) :
    ∃ (played : Bool) (world₁ : σ) (repeated : List Answered) (happenings : List Happening)
      (result : Except Failure Outcome) (world' : σ),
      (a.replay instruction task dispatch).run world = (played, world₁) ∧
      repeated.map Answered.call <+: a.repeatable instruction task world ∧
      (a.limitedTo limit).CarriesOut instruction task dispatch world
        (repeated.map .called ++ happenings) result world' ∧
      (played = true → happenings = [] ∧ result = .ok .ok) ∧
      (played = false → ∃ rounds,
        a.StaysWithin instruction task dispatch world₁ limit happenings rounds result) ∧
      (played = true ∨ ¬ a.AsksFor instruction task dispatch world₁ (limit + 1) →
        ∀ patience, limit ≤ patience → (a.unlimited patience).CarriesOut instruction task dispatch
          world (repeated.map .called ++ happenings) result world') := by
  rcases hplain : (a.replay instruction task dispatch).run world with ⟨played, world₁⟩
  obtain ⟨repeated, hrepeated, hminuted⟩ := a.run_replay_minuted instruction task dispatch world
  rw [hplain] at hminuted
  cases played with
  | true =>
    refine ⟨true, world₁, repeated, [], .ok .ok, world₁, rfl, hrepeated, ?_, fun _ => ⟨rfl, rfl⟩,
      nofun, fun _ patience _ => ?_⟩
    · rw [List.append_nil]
      exact .of_playedBack hplain hminuted
    · rw [List.append_nil]
      exact .of_playedBack hplain hminuted
  | false =>
    obtain ⟨g, world₂, hconverses⟩ : ∃ g world₂,
        a.Converses instruction task dispatch world₁ limit g world₂ :=
      Holds.exists_holds a.model task.tools dispatch limit _ world₁
    have hlimited : (a.limitedTo limit).Converses instruction task dispatch world₁
        (a.limitedTo limit).bound.1 g world₂ := hconverses
    have htold := hlimited.run_carryOutLive_told (repeated.map .called)
    refine ⟨false, world₁, repeated, _, _, _, rfl, hrepeated, .of_live hplain hminuted rfl htold,
      nofun, fun _ => ⟨g.rounds, hconverses.staysWithin hanswers⟩, fun hends patience hle => ?_⟩
    have hends' := hends.resolve_left Bool.false_ne_true
    obtain ⟨hsame, hsame'⟩ := hconverses.run_unlimited hanswers hends' hle
    exact .of_live hplain hminuted hsame ((hsame' _).trans htold)

def restless : Assistant (StateM FileTree) where
  model := ⟨fun _ _ => return .ok ⟨.assistant, none, [⟨"1", "function", "open", "{}"⟩], none⟩⟩
  cache := ⟨⟨"cache"⟩⟩
  files := FileAccess.inMemory
  roundLimit := none
  patience := 0

def opener : Dispatch (StateM FileTree) := fun _ => return .ok "opened"

private def restlessRound : Round where
  reply := ⟨.assistant, none, [⟨"1", "function", "open", "{}"⟩], none⟩
  answers := [⟨⟨"1", "function", "open", "{}"⟩, .ok "opened"⟩]
  asks := List.cons_ne_nil _ _
  complete := rfl

private theorem beginsWith_restless (instruction : String) (task : Assignment) (world : FileTree)
    (count : Nat) :
    restless.BeginsWith instruction task opener world (List.replicate count restlessRound) := by
  have hunfolds (messages : List Message) : ∃ messages', Unfolds restless.model task.tools opener
      messages world (List.replicate count restlessRound) messages' world := by
    induction count generalizing messages with
    | zero => exact ⟨messages, .nil messages world⟩
    | succ count ih =>
      obtain ⟨messages', hrest⟩ := ih (messages ++ restlessRound.messages)
      exact ⟨messages', .cons rfl (.cons rfl (.nil world)) hrest⟩
  obtain ⟨messages', hbegins⟩ := hunfolds [.system task.briefing, .user instruction]
  exact ⟨messages', world, hbegins⟩

theorem carryOut_limitedTo_restless :
    restless.model.AlwaysAnswers ∧ ∃ happenings world',
      (restless.limitedTo 2).CarriesOut "open all" ⟨"", [], false, "llm"⟩ opener default happenings
        (.error (.chat (.tooManyRounds 2))) world' ∧
      (requestsIn happenings).length = 3 ∧
      ((answersIn happenings).map Answered.call).map ToolCall.name = ["open", "open"] := by
  have hanswers : restless.model.AlwaysAnswers := fun _ _ _ => ⟨_, rfl⟩
  obtain ⟨played, world₁, repeated, happenings, result, world', hreplay, hrepeated, hruns, -, hlive,
    -⟩ := carryOut_limitedTo restless 2 hanswers "open all" ⟨"", [], false, "llm"⟩ opener default
  obtain ⟨rfl, rfl⟩ : false = played ∧ _ = world₁ := Prod.mk.inj hreplay
  obtain rfl : repeated = [] := List.map_eq_nil_iff.1 (List.prefix_nil.1 hrepeated)
  obtain ⟨rounds, hstays⟩ := hlive rfl
  have hbegins := beginsWith_restless "open all" ⟨"", [], false, "llm"⟩ default
  have hlength : rounds.length = 2 :=
    hstays.endless fun count => ⟨_, List.length_replicate, hbegins count⟩
  have hrounds : rounds = [restlessRound, restlessRound] :=
    hstays.begins.unique (hbegins 2) hlength
  obtain rfl := hstays.givenUp.2 ⟨_, List.length_replicate, hbegins 3⟩
  refine ⟨hanswers, happenings, world', hruns, by rw [hstays.requests, hlength], ?_⟩
  rw [hstays.calls, hrounds]
  rfl

end Assistant
end StepScript
