import StepScript.Proofs.Along
import StepScript.Proofs.CacheStore
import StepScript.Proofs.Dialogue
import StepScript.Proofs.Extraction
import StepScript.Proofs.Namespaces

/-!
Carrying out an instruction at a desk. What is remembered is played back, or a conversation takes
place, whose calls are written down if it was worth keeping; that covers every case. As long as the
model and the tools leave the cache's files alone, nothing but that write changes an entry.
-/

set_option autoImplicit false
set_option relaxedAutoImplicit false

namespace StepScript

open FileTree

variable {ρ : Type}

/-! ## Commissions -/

/-- An instruction to carry out at a desk, and with whom. -/
structure Commission (ρ : Type) where
  instruction : String
  task : Assignment
  model : ChatModel (StateM (Desk ρ))
  dispatch : Dispatch (StateM (Desk ρ))
  roundLimit : Option Nat
  patience : Nat

structure Account where
  /-- The conversation, unless what was remembered was played back. -/
  dialogue : Option Dialogue
  result : Except Failure Outcome
  /-- How the write of the calls ended, if they were written. -/
  saved : Option (Except CacheError Unit)

/-- The record in a reply, from the first brace that opens to the last that closes. -/
def Message.Reports (reply : Message) (o : Outcome) : Prop :=
  ∃ before raw after v, Json.Splits (reply.content.getD "") before raw after ∧
    Json.read? raw = some v ∧ Outcome.ofJson? v = some o

/-- A conversation made calls, and the reply that ended it asks for none and reports a success
without results. -/
def Dialogue.IsWorthKeeping (g : Dialogue) : Prop :=
  ∃ reply o, g.last = .ok reply ∧ reply.toolCalls = [] ∧ reply.Reports o ∧ o.success = true ∧
    o.result = none ∧ g.calls ≠ []

/-- A conversation took place that was worth keeping, with these calls. -/
def Account.Keeps (a : Account) (calls : List ToolCall) : Prop :=
  ∃ g, a.dialogue = some g ∧ g.IsWorthKeeping ∧ calls = g.calls

theorem Message.reports_iff {reply : Message} {o : Outcome} :
    reply.Reports o ↔ Json.recordIn (reply.content.getD "") = .ok o := by
  have hread := (Json.answers_recordIn (α := Outcome) (reply.content.getD "")).eq_ok_iff o
  simp only [hread, Option.bind_eq_some_iff, Json.objectText?_eq_some_iff]
  constructor
  · rintro ⟨before, raw, after, v, hsplits, hraw, hv⟩
    exact ⟨v, ⟨raw, ⟨before, after, hsplits⟩, hraw⟩, hv⟩
  · rintro ⟨v, ⟨raw, ⟨before, after, hsplits⟩, hraw⟩, hv⟩
    exact ⟨before, raw, after, v, hsplits, hraw, hv⟩

private theorem outcomeOf_eq_ok_iff {instruction : String} {reply : Message} {o : Outcome} :
    Conversation.outcomeOf instruction reply = .ok o ↔ reply.Reports o ∧ o.success = true := by
  rw [Message.reports_iff]
  unfold Conversation.outcomeOf
  cases (Json.recordIn (reply.content.getD "") : Except ChatError Outcome) with
  | error e => simp
  | ok o' =>
    cases hsuccess : o'.success with
    | true =>
      simp only [hsuccess, if_true, Except.ok.injEq]
      exact ⟨fun h => ⟨h, h ▸ hsuccess⟩, fun h => h.1⟩
    | false =>
      simp only [hsuccess, Bool.false_eq_true, if_false, reduceCtorEq, Except.ok.injEq, false_iff]
      rintro ⟨rfl, h⟩
      rw [hsuccess] at h
      cases h

namespace Commission

variable (c : Commission ρ) (cache : Cache)

def assistant : Assistant (StateM (Desk ρ)) :=
  ⟨c.model, cache, Desk.access, c.roundLimit, c.patience⟩

def carryOut : StateM (Desk ρ) (Except Failure Outcome) :=
  (c.assistant cache).carryOut c.instruction c.task c.dispatch

def playBack : StateM (Desk ρ) Bool :=
  (c.assistant cache).playBack c.instruction c.task c.dispatch

def outcome (g : Dialogue) : Except Failure Outcome :=
  match g.result (c.assistant cache).bound.2 [] with
  | .error f => .error f
  | .ok (reply, _) => Conversation.outcomeOf c.instruction reply

/-- The conversation begins at another desk, where what is remembered may have been played back in
vain. -/
inductive Opens : Desk ρ → Desk ρ → Prop
  | atOnce {d : Desk ρ} (hcache : c.task.useCache = false) : Opens d d
  | inVain {d d' : Desk ρ} (hcache : c.task.useCache = true)
      (hrun : (c.playBack cache).run d = (false, d')) : Opens d d'

def Talks (d : Desk ρ) (g : Dialogue) (d' : Desk ρ) : Prop :=
  Holds c.model c.task.tools c.dispatch (c.assistant cache).bound.1
    [.system c.task.briefing, .user c.instruction] d g d'

/-- The instruction is carried out in this way. -/
inductive Goes : Desk ρ → Account → Desk ρ → Prop
  | playedBack {d d' : Desk ρ} (hcache : c.task.useCache = true)
      (hrun : (c.playBack cache).run d = (true, d')) : Goes d ⟨none, .ok .ok, none⟩ d'
  | passed {d d₁ d' : Desk ρ} {g : Dialogue} (hopens : c.Opens cache d d₁)
      (htalks : c.Talks cache d₁ g d') (hworth : ¬ g.IsWorthKeeping) :
      Goes d ⟨some g, c.outcome cache g, none⟩ d'
  | kept {d d₁ d₂ d' : Desk ρ} {g : Dialogue} {saved : Except CacheError Unit}
      (hopens : c.Opens cache d d₁) (htalks : c.Talks cache d₁ g d₂)
      (hworth : g.IsWorthKeeping)
      (hwrite : (cache.write Desk.access c.task.scope c.instruction g.calls).run d₂ = (saved, d')) :
      Goes d ⟨some g, c.outcome cache g, some saved⟩ d'

variable {c cache}

private theorem exists_opens (c : Commission ρ) (cache : Cache) (d : Desk ρ) :
    (∃ d', c.task.useCache = true ∧ (c.playBack cache).run d = (true, d')) ∨
      ∃ d', c.Opens cache d d' := by
  cases hcache : c.task.useCache with
  | false => exact .inr ⟨d, .atOnce hcache⟩
  | true =>
    rcases hrun : (c.playBack cache).run d with ⟨done, d'⟩
    cases done with
    | true => exact .inl ⟨d', rfl, rfl⟩
    | false => exact .inr ⟨d', .inVain hcache hrun⟩

theorem exists_goes (c : Commission ρ) (cache : Cache) (d : Desk ρ) :
    ∃ a d', c.Goes cache d a d' := by
  rcases exists_opens c cache d with ⟨d', hcache, hrun⟩ | ⟨d₁, hopens⟩
  · exact ⟨_, d', .playedBack hcache hrun⟩
  · obtain ⟨g, d₂, htalks⟩ : ∃ g d₂, c.Talks cache d₁ g d₂ := Holds.exists_holds _ _ _ _ _ d₁
    by_cases hworth : g.IsWorthKeeping
    · rcases hwrite : (cache.write Desk.access c.task.scope c.instruction g.calls).run d₂ with
        ⟨saved, d'⟩
      exact ⟨_, d', .kept hopens htalks hworth hwrite⟩
    · exact ⟨_, d₂, .passed hopens htalks hworth⟩

private theorem Opens.run {d d' : Desk ρ} (h : c.Opens cache d d') :
    (c.carryOut cache).run d =
      ((c.assistant cache).carryOutLive c.instruction c.task c.dispatch).run d' := by
  unfold carryOut
  cases h with
  | atOnce hcache => rw [Assistant.carryOut_live _ _ _ hcache]
  | inVain hcache hrun =>
    rw [Assistant.carryOut_cached _ _ _ hcache]
    exact run_bind_of hrun

private theorem run_playedBack {d d' : Desk ρ} (hcache : c.task.useCache = true)
    (hrun : (c.playBack cache).run d = (true, d')) :
    (c.carryOut cache).run d = (.ok .ok, d') := by
  unfold carryOut
  rw [Assistant.carryOut_cached _ _ _ hcache]
  exact run_bind_of hrun

private theorem Talks.run {d d' : Desk ρ} {g : Dialogue} (h : c.Talks cache d g d') :
    ((c.assistant cache).carryOutLive c.instruction c.task c.dispatch).run d =
      ((c.assistant cache).conclude c.instruction c.task
        (g.result (c.assistant cache).bound.2 [])).run d' := by
  have hholds : Holds (c.assistant cache).model c.task.tools c.dispatch (c.assistant cache).bound.1
      [.system c.task.briefing, .user c.instruction] d g d' := h
  exact hholds.run_carryOutLive

private theorem isWorthKeeping_iff {o : Outcome} {calls : List ToolCall} :
    Conversation.isWorthKeeping o calls = true ↔ o.result = none ∧ calls ≠ [] := by
  unfold Conversation.isWorthKeeping
  simp

section

variable {g : Dialogue} {d d' : Desk ρ} {saved : Except CacheError Unit}

private theorem isWorthKeeping_iff_outcome :
    g.IsWorthKeeping ↔ ∃ o, c.outcome cache g = .ok o ∧ o.result = none ∧ g.calls ≠ [] := by
  unfold Dialogue.IsWorthKeeping outcome Dialogue.result
  cases g.last with
  | error e => simp
  | ok reply =>
    cases hcalls : reply.toolCalls with
    | nil => simp [hcalls, outcomeOf_eq_ok_iff, and_assoc]
    | cons call calls => simp [hcalls]

private theorem run_conclude_passed (hworth : ¬ g.IsWorthKeeping) :
    ((c.assistant cache).conclude c.instruction c.task
      (g.result (c.assistant cache).bound.2 [])).run d = (c.outcome cache g, d) := by
  rw [isWorthKeeping_iff_outcome] at hworth
  unfold outcome at hworth ⊢
  cases hresult : g.result (c.assistant cache).bound.2 [] with
  | error f => rfl
  | ok found =>
    obtain ⟨reply, calls⟩ := found
    have hcalls : calls = g.calls := Dialogue.calls_of_result hresult
    rw [hresult] at hworth
    simp only [Assistant.conclude] at hworth ⊢
    cases houtcome : Conversation.outcomeOf c.instruction reply with
    | error f => rfl
    | ok o =>
      -- The reply reports a success all the same, but it has results or no calls were made.
      have hidle : Conversation.isWorthKeeping o calls = false := by
        rw [← Bool.not_eq_true, isWorthKeeping_iff, hcalls]
        rintro ⟨hnone, hsome⟩
        exact hworth ⟨o, houtcome, hnone, hsome⟩
      simp only [hidle]
      rfl

private theorem run_conclude_kept (hworth : g.IsWorthKeeping)
    (hwrite : (cache.write Desk.access c.task.scope c.instruction g.calls).run d = (saved, d')) :
    ((c.assistant cache).conclude c.instruction c.task
      (g.result (c.assistant cache).bound.2 [])).run d = (c.outcome cache g, d') := by
  obtain ⟨o, houtcome, hnone, hsome⟩ := (isWorthKeeping_iff_outcome (c := c)).1 hworth
  rw [houtcome]
  unfold outcome at houtcome
  cases hresult : g.result (c.assistant cache).bound.2 [] with
  | error f =>
    rw [hresult] at houtcome
    cases houtcome
  | ok found =>
    obtain ⟨reply, calls⟩ := found
    obtain rfl : calls = g.calls := Dialogue.calls_of_result hresult
    rw [hresult] at houtcome
    have hkept : Conversation.isWorthKeeping o g.calls = true :=
      isWorthKeeping_iff.2 ⟨hnone, hsome⟩
    simp only [Assistant.conclude] at houtcome ⊢
    simp only [houtcome, hkept, if_true]
    exact run_bind_of hwrite

end

/-- A commission that goes in some way is carried out in that way. -/
theorem Goes.run {d d' : Desk ρ} {a : Account} (h : c.Goes cache d a d') :
    (c.carryOut cache).run d = (a.result, d') := by
  cases h with
  | playedBack hcache hrun => exact run_playedBack hcache hrun
  | passed hopens htalks hworth =>
    rw [hopens.run, htalks.run]
    exact run_conclude_passed hworth
  | kept hopens htalks hworth hwrite =>
    rw [hopens.run, htalks.run]
    exact run_conclude_kept hworth hwrite

end Commission

/-! ## The files -/

private theorem isPath_leaves (root : Path) :
    IsPath fun d d' : Desk ρ => Leaves root d.files d'.files :=
  ⟨fun d => .refl d.files, .trans⟩

def Calmly {α : Type} (root : Path) (x : StateM (Desk ρ) α) : Prop :=
  Along (fun d d' => Leaves root d.files d'.files) x

namespace Calmly

variable {α β : Type} {root : Path}

private theorem pure (a : α) : Calmly root (pure a : StateM (Desk ρ) α) :=
  Along.pure (isPath_leaves root) a

private theorem bind {x : StateM (Desk ρ) α} {f : α → StateM (Desk ρ) β} (hx : Calmly root x)
    (hf : ∀ a, Calmly root (f a)) : Calmly root (x >>= f) :=
  Along.bind (isPath_leaves root) hx hf

private theorem of_run {x : StateM (Desk ρ) α} {d d' : Desk ρ} {a : α} (hx : Calmly root x)
    (hrun : x.run d = (a, d')) : Leaves root d.files d'.files := by
  have hleaves := Along.of_run hx hrun
  exact hleaves

private theorem read? [Json.Codec α] (cache : Cache) (scope key : String) :
    Calmly root (cache.read? Desk.access scope key :
      StateM (Desk ρ) (Except CacheError (Option α))) := by
  unfold Cache.read?
  have hread : Calmly root (Desk.access.read (cache.pathOf scope key) : StateM (Desk ρ) _) :=
    fun d => .refl d.files
  refine hread.bind fun found => ?_
  cases found with
  | error e => cases e <;> exact .pure _
  | ok bytes =>
    simp only
    cases (Json.decodeBytes? bytes : Option α) with
    | none => exact .pure _
    | some v => exact .pure _

private theorem repeatCalls {dispatch : Dispatch (StateM (Desk ρ))}
    (hdispatch : ∀ call, Calmly root (dispatch call)) (calls : List ToolCall) :
    Calmly root (Assistant.repeatCalls dispatch calls) := by
  induction calls with
  | nil => exact .pure _
  | cons call rest ih =>
    unfold Assistant.repeatCalls
    refine (hdispatch call).bind fun result => ?_
    cases result with
    | error t => exact .pure _
    | ok content => exact ih

end Calmly

theorem Makes.leaves {root : Path} {dispatch : Dispatch (StateM (Desk ρ))} {d d' : Desk ρ}
    {answers : List Answered} (h : Makes dispatch d answers d')
    (hdispatch : ∀ call, Calmly root (dispatch call)) : Leaves root d.files d'.files := by
  induction h with
  | nil d => exact .refl d.files
  | cons hrun _ ih => exact ((hdispatch _).of_run hrun).trans ih

private theorem Holds.leaves {root : Path} {model : ChatModel (StateM (Desk ρ))} {tools : List Tool}
    {dispatch : Dispatch (StateM (Desk ρ))} {room : Nat} {messages : List Message} {d d' : Desk ρ}
    {g : Dialogue} (h : Holds model tools dispatch room messages d g d')
    (hmodel : ∀ messages tools, Calmly root (model.ask messages tools))
    (hdispatch : ∀ call, Calmly root (dispatch call)) : Leaves root d.files d'.files := by
  induction h with
  | ends hask _ => exact (hmodel _ _).of_run hask
  | round hask hanswers _ ih =>
    exact ((hmodel _ _).of_run hask).trans ((hanswers.leaves hdispatch).trans ih)

namespace Commission

structure IsCareful (c : Commission ρ) (root : Path) : Prop where
  asks : ∀ messages tools, Calmly root (c.model.ask messages tools)
  calls : ∀ call, Calmly root (c.dispatch call)

variable {c : Commission ρ} {cache : Cache} {d d' : Desk ρ}

private theorem IsCareful.playBack (h : c.IsCareful cache.root) :
    Calmly cache.root (c.playBack cache) := by
  unfold Commission.playBack Assistant.playBack
  refine Calmly.bind ?_ fun calls => ?_
  · unfold Assistant.remembered
    refine (Calmly.read? cache _ _).bind fun found => ?_
    cases found <;> exact .pure _
  · cases calls with
    | nil => exact .pure _
    | cons call rest => exact .repeatCalls h.calls _

private theorem Opens.leaves (h : c.Opens cache d d') (hcareful : c.IsCareful cache.root) :
    Leaves cache.root d.files d'.files := by
  cases h with
  | atOnce _ => exact .refl d.files
  | inVain _ hrun => exact hcareful.playBack.of_run hrun

private theorem Talks.leaves {g : Dialogue} (h : c.Talks cache d g d')
    (hcareful : c.IsCareful cache.root) : Leaves cache.root d.files d'.files :=
  Holds.leaves h hcareful.asks hcareful.calls

variable {a : Account}

/-- No entry changes if there is nothing to keep. -/
theorem Goes.leaves (h : c.Goes cache d a d') (hcareful : c.IsCareful cache.root)
    (hnone : ∀ calls, ¬ a.Keeps calls) : Leaves cache.root d.files d'.files := by
  cases h with
  | playedBack _ hrun => exact hcareful.playBack.of_run hrun
  | passed hopens htalks _ => exact (hopens.leaves hcareful).trans (htalks.leaves hcareful)
  | @kept _ _ _ g _ _ _ hworth _ => exact absurd ⟨g, rfl, hworth, rfl⟩ (hnone g.calls)

/-- What is worth keeping is put into the entry of the instruction, and nowhere else. -/
theorem Goes.alters {calls : List ToolCall} (h : c.Goes cache d a d')
    (hcareful : c.IsCareful cache.root) (horderly : d.files.Orderly cache.root)
    (hscope : IsFileName c.task.scope) (hkeeps : a.Keeps calls)
    (hsaved : ∀ e, a.saved ≠ some (.error e)) :
    ∃ between, Leaves cache.root d.files between ∧
      between.Alters (cache.directory c.task.scope) (Cache.fileName c.instruction)
        (some (Json.Codec.encode calls).indented.toUTF8) d'.files := by
  obtain ⟨g, hdialogue, hworth, rfl⟩ := hkeeps
  cases h with
  | playedBack _ _ => cases hdialogue
  | passed _ _ hidle =>
    cases hdialogue
    exact absurd hworth hidle
  | @kept _ d₂ _ _ saved hopens htalks _ hwrite =>
    cases hdialogue
    have hbefore := (hopens.leaves hcareful).trans (htalks.leaves hcareful)
    have horderly₂ := horderly.leaves hbefore
    have hclean : d₂.Clean (cache.directory c.task.scope) :=
      (horderly₂.steady c.task.scope hscope).mono fun _ _ _ _ => trivial
    have hreplaces : Desk.Yields (cache.write Desk.access c.task.scope c.instruction g.calls) d₂
        (Desk.Replaces (cache.directory c.task.scope) c.instruction _ d₂) :=
      Desk.yields_write hclean g.calls
    rw [Desk.Yields, hwrite] at hreplaces
    obtain ⟨-, ⟨between, -, hquiet, hput⟩ | ⟨⟨e, he⟩, -⟩⟩ := hreplaces
    · exact ⟨between, hbefore.trans (hquiet.leaves horderly₂.unlinked hscope), hput⟩
    · exact absurd (congrArg some he) (hsaved e)

end Commission

end StepScript
