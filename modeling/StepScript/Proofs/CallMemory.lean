import StepScript.Proofs.Commission
import StepScript.Proofs.Replay

/-!
What a cache remembers of conversations. Instructions are carried out one after the other, with any
models and tools that leave the cache's files alone. Where no namespace is a link, an entry then
holds the calls of the last conversation about its key that was worth keeping, and nothing else that
is done changes any entry.
-/

set_option autoImplicit false
set_option relaxedAutoImplicit false

namespace StepScript

open FileTree

variable {ρ : Type}

/-! ## Entries -/

namespace Cache

def entry? (cache : Cache) (t : FileTree) (scope key : String) : Option ByteArray :=
  (t.read (cache.pathOf scope key)).toOption

variable {cache : Cache} {t t' : FileTree} {scope key : String}

private theorem entry?_eq_some_iff (h : t.Orderly cache.root) (hscope : IsFileName scope)
    {bytes : ByteArray} :
    cache.entry? t scope key = some bytes ↔ t.Has (cache.directory scope) (fileName key) bytes := by
  have hread : t.read (cache.pathOf scope key) = .ok bytes ↔ _ :=
    (h.steady scope hscope).read_iff (isOwnName_fileName key)
  refine Iff.trans ?_ hread
  unfold entry?
  cases t.read (cache.pathOf scope key) <;> simp [Except.toOption]

private theorem entry?_congr (h : t.Orderly cache.root) (h' : t'.Orderly cache.root)
    (hscope : IsFileName scope)
    (hhas : ∀ bytes, t'.Has (cache.directory scope) (fileName key) bytes ↔
      t.Has (cache.directory scope) (fileName key) bytes) :
    cache.entry? t' scope key = cache.entry? t scope key := by
  ext bytes
  rw [entry?_eq_some_iff h hscope, entry?_eq_some_iff h' hscope, hhas]

end Cache

/-! ## Histories -/

def Commission.carryOutAll (cache : Cache) :
    List (Commission ρ) → StateM (Desk ρ) (List (Except Failure Outcome))
  | [] => return []
  | c :: rest => do
    let result ← c.carryOut cache
    let results ← carryOutAll cache rest
    return result :: results

structure Stage (ρ : Type) where
  commission : Commission ρ
  start : Desk ρ
  account : Account
  finish : Desk ρ

inductive History (cache : Cache) : Desk ρ → List (Stage ρ) → Desk ρ → Prop
  | nil (d : Desk ρ) : History cache d [] d
  | cons {x : Stage ρ} {rest : List (Stage ρ)} {d' : Desk ρ}
      (hgoes : x.commission.Goes cache x.start x.account x.finish)
      (hrest : History cache x.finish rest d') : History cache x.start (x :: rest) d'

namespace Stage

variable (x : Stage ρ) (cache : Cache) (scope key : String)

def IsOn : Prop := x.commission.task.scope = scope ∧ x.commission.instruction = key

def IsDiscernedFrom : Prop :=
  Digest.Blake3.hexHash x.commission.instruction = Digest.Blake3.hexHash key →
    x.commission.instruction = key

/-- A stage where nobody else touches the cache, and writes succeed. -/
structure IsProper : Prop where
  careful : x.commission.IsCareful cache.root
  scope : IsFileName x.commission.task.scope
  saved : ∀ e, x.account.saved ≠ some (.error e)

end Stage

namespace History

variable {cache : Cache} {d d' : Desk ρ} {past : List (Stage ρ)} {x : Stage ρ}
  {scope key : String} {calls : List ToolCall}

private theorem exists_history (cache : Cache) (commissions : List (Commission ρ)) (d : Desk ρ) :
    ∃ past d', past.map Stage.commission = commissions ∧ History cache d past d' := by
  induction commissions generalizing d with
  | nil => exact ⟨[], d, rfl, .nil d⟩
  | cons c rest ih =>
    obtain ⟨a, d₁, hgoes⟩ := c.exists_goes cache d
    obtain ⟨past, d', hpast, hrest⟩ := ih d₁
    let x : Stage ρ := ⟨c, d, a, d₁⟩
    have hall : History cache x.start (x :: past) d' := .cons hgoes hrest
    exact ⟨x :: past, d', congrArg (c :: ·) hpast, hall⟩

private theorem run (h : History cache d past d') :
    (Commission.carryOutAll cache (past.map Stage.commission)).run d =
      (past.map fun x => x.account.result, d') := by
  induction h with
  | nil d => rfl
  | cons hgoes _ ih =>
    rw [List.map_cons, Commission.carryOutAll, run_bind_of hgoes.run, run_bind_of ih]
    rfl

private theorem split {before after : List (Stage ρ)} (h : History cache d (before ++ after) d') :
    ∃ between, History cache d before between ∧ History cache between after d' := by
  induction before generalizing d with
  | nil => exact ⟨d, .nil d, h⟩
  | cons x before ih =>
    cases h with
    | cons hgoes hrest =>
      obtain ⟨between, hbefore, hafter⟩ := ih hrest
      exact ⟨between, .cons hgoes hbefore, hafter⟩

section

variable (hgoes : x.commission.Goes cache x.start x.account x.finish) (hproper : x.IsProper cache)
  (horderly : x.start.files.Orderly cache.root)

include hgoes hproper horderly

private theorem orderly_of_goes : x.finish.files.Orderly cache.root := by
  by_cases hkeeps : ∃ calls, x.account.Keeps calls
  · obtain ⟨calls, hkeeps⟩ := hkeeps
    obtain ⟨between, hleaves, hput⟩ :=
      hgoes.alters hproper.careful horderly hproper.scope hkeeps hproper.saved
    exact (horderly.leaves hleaves).alters hproper.scope hput
  · exact horderly.leaves (hgoes.leaves hproper.careful fun calls h => hkeeps ⟨calls, h⟩)

private theorem entry?_of_idle (hidle : ∀ calls, ¬ x.account.Keeps calls)
    (hscope : IsFileName scope) :
    cache.entry? x.finish.files scope key = cache.entry? x.start.files scope key := by
  have hleaves := hgoes.leaves hproper.careful hidle
  exact Cache.entry?_congr horderly (horderly.leaves hleaves) hscope
    fun bytes => horderly.has_iff hleaves hscope

private theorem entry?_of_other (hother : ¬ x.IsOn scope key) (hdiscerned : x.IsDiscernedFrom key)
    (hscope : IsFileName scope) :
    cache.entry? x.finish.files scope key = cache.entry? x.start.files scope key := by
  by_cases hkeeps : ∃ calls, x.account.Keeps calls
  · obtain ⟨calls, hkeeps⟩ := hkeeps
    obtain ⟨between, hleaves, hput⟩ :=
      hgoes.alters hproper.careful horderly hproper.scope hkeeps hproper.saved
    have hbetween := horderly.leaves hleaves
    have hne : ¬ (scope = x.commission.task.scope ∧
        Cache.fileName key = Cache.fileName x.commission.instruction) := by
      rintro ⟨hsame, hname⟩
      exact hother ⟨hsame.symm, hdiscerned (Cache.hexHash_of_fileName hname).symm⟩
    refine Cache.entry?_congr horderly (hbetween.alters hproper.scope hput) hscope fun bytes => ?_
    exact (hbetween.has_iff_of_alters hproper.scope hput hscope hne).trans
      (horderly.has_iff hleaves hscope)
  · exact entry?_of_idle hgoes hproper horderly (fun calls h => hkeeps ⟨calls, h⟩) hscope

private theorem entry?_of_keeps (hkeeps : x.account.Keeps calls) :
    cache.entry? x.finish.files x.commission.task.scope x.commission.instruction =
      some (Json.Codec.encode calls).indented.toUTF8 := by
  obtain ⟨between, hleaves, hput⟩ :=
    hgoes.alters hproper.careful horderly hproper.scope hkeeps hproper.saved
  exact (Cache.entry?_eq_some_iff ((horderly.leaves hleaves).alters hproper.scope hput)
    hproper.scope).2 hput.has_same

end

private theorem orderly (h : History cache d past d') (hproper : ∀ x ∈ past, x.IsProper cache)
    (horderly : d.files.Orderly cache.root) : d'.files.Orderly cache.root := by
  induction h with
  | nil d => exact horderly
  | @cons x rest d' hgoes _ ih =>
    exact ih (fun y hy => hproper y (List.mem_cons_of_mem x hy))
      (orderly_of_goes hgoes (hproper x List.mem_cons_self) horderly)

private theorem goes_of_mem (h : History cache d past d') (hproper : ∀ x ∈ past, x.IsProper cache)
    (horderly : d.files.Orderly cache.root) (hx : x ∈ past) :
    x.commission.Goes cache x.start x.account x.finish ∧ x.start.files.Orderly cache.root := by
  obtain ⟨before, after, rfl⟩ := List.append_of_mem hx
  obtain ⟨between, hbefore, hafter⟩ := h.split
  have hbetween := hbefore.orderly (fun y hy => hproper y (List.mem_append_left _ hy)) horderly
  cases hafter with
  | cons hgoes _ => exact ⟨hgoes, hbetween⟩

private theorem entry?_of_untouched (h : History cache d past d')
    (hproper : ∀ x ∈ past, x.IsProper cache)
    (horderly : d.files.Orderly cache.root) (hscope : IsFileName scope)
    (hdiscerned : ∀ x ∈ past, x.IsDiscernedFrom key)
    (huntouched : ∀ x ∈ past, x.IsOn scope key → ∀ calls, ¬ x.account.Keeps calls) :
    cache.entry? d'.files scope key = cache.entry? d.files scope key := by
  induction h with
  | nil d => rfl
  | @cons x rest d' hgoes _ ih =>
    have hfirst := hproper x List.mem_cons_self
    have hrest := ih (fun y hy => hproper y (List.mem_cons_of_mem x hy))
      (orderly_of_goes hgoes hfirst horderly)
      (fun y hy => hdiscerned y (List.mem_cons_of_mem x hy))
      fun y hy => huntouched y (List.mem_cons_of_mem x hy)
    refine hrest.trans ?_
    by_cases hon : x.IsOn scope key
    · exact entry?_of_idle hgoes hfirst horderly (huntouched x List.mem_cons_self hon) hscope
    · exact entry?_of_other hgoes hfirst horderly hon (hdiscerned x List.mem_cons_self) hscope

end History

/-- The last conversation about a key that was worth keeping was one with these calls. -/
def Latest (past : List (Stage ρ)) (scope key : String) (calls : List ToolCall) : Prop :=
  ∃ before x after, past = before ++ x :: after ∧ x.IsOn scope key ∧ x.account.Keeps calls ∧
    ∀ y ∈ after, y.IsOn scope key → ∀ calls, ¬ y.account.Keeps calls

private theorem History.entry?_of_latest {cache : Cache} {d d' : Desk ρ} {past : List (Stage ρ)}
    {scope key : String} {calls : List ToolCall} (h : History cache d past d')
    (hproper : ∀ x ∈ past, x.IsProper cache) (horderly : d.files.Orderly cache.root)
    (hscope : IsFileName scope) (hdiscerned : ∀ x ∈ past, x.IsDiscernedFrom key)
    (hlatest : Latest past scope key calls) :
    cache.entry? d'.files scope key = some (Json.Codec.encode calls).indented.toUTF8 := by
  obtain ⟨before, x, after, rfl, ⟨rfl, rfl⟩, hkeeps, huntouched⟩ := hlatest
  have hx : x ∈ before ++ x :: after := by simp
  have hafter (y : Stage ρ) (hy : y ∈ after) : y ∈ before ++ x :: after := by simp [hy]
  obtain ⟨hgoes, hstart⟩ := h.goes_of_mem hproper horderly hx
  obtain ⟨between, -, hfrom⟩ := h.split
  cases hfrom with
  | cons _ hrest =>
    rw [hrest.entry?_of_untouched (fun y hy => hproper y (hafter y hy))
      (orderly_of_goes hgoes (hproper x hx) hstart) hscope
      (fun y hy => hdiscerned y (hafter y hy)) huntouched]
    exact entry?_of_keeps hgoes (hproper x hx) hstart hkeeps

private theorem History.read?_of_latest {cache : Cache} {d d' : Desk ρ} {past : List (Stage ρ)}
    {scope key : String} {calls : List ToolCall} (h : History cache d past d')
    (hproper : ∀ x ∈ past, x.IsProper cache) (horderly : d.files.Orderly cache.root)
    (hscope : IsFileName scope) (hdiscerned : ∀ x ∈ past, x.IsDiscernedFrom key)
    (hlatest : Latest past scope key calls) :
    (cache.read? Desk.access scope key).run d' = (.ok (some calls), d') := by
  have hentry := h.entry?_of_latest hproper horderly hscope hdiscerned hlatest
  have hend := h.orderly hproper horderly
  have hclean : d'.Clean (cache.directory scope) :=
    (hend.steady scope hscope).mono fun _ _ _ _ => trivial
  have hread : Desk.Yields (cache.read? Desk.access scope key :
      StateM (Desk ρ) (Except CacheError (Option (List ToolCall)))) d' _ :=
    Desk.yields_read? hclean
  obtain ⟨hsame, hvalue⟩ := hread
  have hfound := (hvalue calls).2
    ⟨_, (Cache.entry?_eq_some_iff hend hscope).1 hentry, ToolCall.readsBack calls⟩
  exact Prod.ext hfound hsame

/-- The entries of a cache follow what was done between two desks. -/
structure Follows (cache : Cache) (d : Desk ρ) (past : List (Stage ρ)) (d' : Desk ρ) : Prop where
  /-- An entry holds the calls of the last conversation about its key that was worth keeping. -/
  latest : ∀ scope key calls, IsFileName scope → (∀ x ∈ past, x.IsDiscernedFrom key) →
    Latest past scope key calls →
      cache.entry? d'.files scope key = some (Json.Codec.encode calls).indented.toUTF8 ∧
      (cache.read? Desk.access scope key).run d' = (.ok (some calls), d')
  /-- Without such a conversation, it holds what it held at the beginning. -/
  untouched : ∀ scope key, IsFileName scope → (∀ x ∈ past, x.IsDiscernedFrom key) →
    (∀ x ∈ past, x.IsOn scope key → ∀ calls, ¬ x.account.Keeps calls) →
      cache.entry? d'.files scope key = cache.entry? d.files scope key
  /-- A stage that keeps nothing changes no entry. -/
  idle : ∀ x ∈ past, (∀ calls, ¬ x.account.Keeps calls) → ∀ scope key, IsFileName scope →
    cache.entry? x.finish.files scope key = cache.entry? x.start.files scope key
  /-- No stage changes an entry of another key. -/
  other : ∀ x ∈ past, ∀ scope key, IsFileName scope → ¬ x.IsOn scope key → x.IsDiscernedFrom key →
    cache.entry? x.finish.files scope key = cache.entry? x.start.files scope key

/-- Any instructions are carried out in some way, and whichever way that is, the entries of the cache
follow it. -/
theorem entries_of_history (cache : Cache) (d : Desk ρ) (horderly : d.files.Orderly cache.root) :
    (∀ commissions, ∃ past d', past.map Stage.commission = commissions ∧ History cache d past d') ∧
    ∀ past d', History cache d past d' →
      (Commission.carryOutAll cache (past.map Stage.commission)).run d =
        (past.map fun x => x.account.result, d') ∧
      ((∀ x ∈ past, x.IsProper cache) → Follows cache d past d') := by
  refine ⟨fun commissions => History.exists_history cache commissions d, fun past d' h => ?_⟩
  refine ⟨h.run, fun hproper => ?_⟩
  constructor
  case latest =>
    intro scope key calls hscope hdiscerned hlatest
    exact ⟨h.entry?_of_latest hproper horderly hscope hdiscerned hlatest,
      h.read?_of_latest hproper horderly hscope hdiscerned hlatest⟩
  case untouched =>
    intro scope key hscope hdiscerned huntouched
    exact h.entry?_of_untouched hproper horderly hscope hdiscerned huntouched
  case idle =>
    intro x hx hidle scope key hscope
    obtain ⟨hgoes, hstart⟩ := h.goes_of_mem hproper horderly hx
    exact History.entry?_of_idle hgoes (hproper x hx) hstart hidle hscope
  case other =>
    intro x hx scope key hscope hother hdiscerned
    obtain ⟨hgoes, hstart⟩ := h.goes_of_mem hproper horderly hx
    exact History.entry?_of_other hgoes (hproper x hx) hstart hother hdiscerned hscope

/-! ## A conversation that is kept, and one that fails -/

def openWith (p : Partner) : Commission Talk :=
  ⟨"open", openTask false, answering p.replies, calling fun _ => .ok "done", p.roundLimit,
    p.patience⟩

def openCache : Cache := ⟨⟨"cache"⟩⟩

def openRound : Round :=
  ⟨⟨.assistant, none, [openCall], none⟩, [⟨openCall, .ok "done"⟩], List.cons_ne_nil _ _, rfl⟩

def openDialogue : Dialogue := ⟨[openRound], .ok doneReply⟩

def openMessages : List Message := [.system "system", .user "open"]

def toldTable (d : Table) : Table :=
  ((d.hear (openMessages, [])).make [openCall]).hear (openMessages ++ openRound.messages, [])

def openWrite : StateM Table (Except CacheError Unit) :=
  openCache.write Desk.access (openWith onceAsking).task.scope (openWith onceAsking).instruction
    openDialogue.calls

private def keptStage (d : Table) (saved : Except CacheError Unit) (d' : Table) : Stage Talk :=
  ⟨openWith onceAsking, d,
    ⟨some openDialogue, (openWith onceAsking).outcome openCache openDialogue, some saved⟩, d'⟩

def failedDialogue : Dialogue := ⟨[], .error (.request "no reply")⟩

def failedStage (d : Table) : Stage Talk :=
  ⟨openWith silent, d,
    ⟨some failedDialogue, (openWith silent).outcome openCache failedDialogue, none⟩,
    d.hear (openMessages, [])⟩

private theorem isCareful_openWith (p : Partner) (root : Path) : (openWith p).IsCareful root :=
  ⟨fun _ _ d => .refl d.files, fun _ d => .refl d.files⟩

private theorem orderly_bareTable (root : Path) : bareTable.files.Orderly root := by
  have hnone (place : Place) (name : String) : bareTable.files.scene (place ++ [name]) = none := by
    cases place <;> rfl
  exact ⟨unlinked_of_none fun place name _ => hnone place name,
    fun scope _ => tidy_of_none fun place name _ => hnone place name⟩

set_option maxRecDepth 20000 in
private theorem isWorthKeeping_openDialogue : openDialogue.IsWorthKeeping := by
  have hrecord : (Json.recordIn (doneReply.content.getD "") : Except ChatError Outcome) =
      .ok .ok := by decide +kernel
  exact ⟨doneReply, .ok, rfl, rfl, Message.reports_iff.2 hrecord, rfl, rfl, by decide⟩

private theorem not_isWorthKeeping_failedDialogue : ¬ failedDialogue.IsWorthKeeping := by
  rintro ⟨reply, o, hlast, -⟩
  cases hlast

private theorem talks_onceAsking (t : FileTree) :
    (openWith onceAsking).Talks openCache ⟨t, ⟨[], []⟩⟩ openDialogue
      (toldTable ⟨t, ⟨[], []⟩⟩) := by
  have hanswers : Makes (calling fun _ => .ok "done")
      (Table.hear ⟨t, ⟨[], []⟩⟩ (openMessages, [])) openRound.answers
      ((Table.hear ⟨t, ⟨[], []⟩⟩ (openMessages, [])).make [openCall]) :=
    .cons rfl (.nil _)
  refine .round rfl hanswers (.ends rfl ?_)
  rintro _ ⟨⟩ hasks
  exact absurd hasks (by decide)

private theorem goes_onceAsking {t : FileTree} {saved : Except CacheError Unit} {d : Table}
    (hwrite : openWrite.run (toldTable ⟨t, ⟨[], []⟩⟩) = (saved, d)) :
    (openWith onceAsking).Goes openCache ⟨t, ⟨[], []⟩⟩
      (keptStage ⟨t, ⟨[], []⟩⟩ saved d).account d := by
  unfold openWrite at hwrite
  exact .kept (.atOnce rfl) (talks_onceAsking t) isWorthKeeping_openDialogue hwrite

private theorem goes_silent (d : Table) : (openWith silent).Goes openCache d (failedStage d).account
    (d.hear (openMessages, [])) :=
  .passed (.atOnce rfl) (.ends rfl nofun) not_isWorthKeeping_failedDialogue

private theorem history_open {d : Table}
    (hwrite : openWrite.run (toldTable bareTable) = (.ok (), d)) :
    History openCache bareTable [keptStage bareTable (.ok ()) d, failedStage d]
      (failedStage d).finish := by
  have hfailed : History openCache (failedStage d).start [failedStage d] (failedStage d).finish :=
    .cons (goes_silent d) (.nil _)
  have hkept : (openWith onceAsking).Goes openCache bareTable
      (keptStage bareTable (.ok ()) d).account d := goes_onceAsking hwrite
  have hall : History openCache (keptStage bareTable (.ok ()) d).start
      [keptStage bareTable (.ok ()) d, failedStage d] (failedStage d).finish := .cons hkept hfailed
  exact hall

private theorem isFileName_llm : IsFileName "llm" := by decide

private theorem isProper_keptStage (d d' : Table) :
    (keptStage d (.ok ()) d').IsProper openCache :=
  ⟨isCareful_openWith onceAsking _, isFileName_llm, nofun⟩

private theorem isProper_open (d : Table) :
    ∀ x ∈ [keptStage bareTable (.ok ()) d, failedStage d], x.IsProper openCache := by
  have hfailed : (failedStage d).IsProper openCache :=
    ⟨isCareful_openWith silent _, isFileName_llm, nofun⟩
  intro x hx
  simp only [List.mem_cons, List.not_mem_nil, or_false] at hx
  rcases hx with rfl | rfl
  · exact isProper_keptStage bareTable d
  · exact hfailed

private theorem isDiscerned_open (d : Table) :
    ∀ x ∈ [keptStage bareTable (.ok ()) d, failedStage d], x.IsDiscernedFrom "open" := by
  intro x hx _
  simp only [List.mem_cons, List.not_mem_nil, or_false] at hx
  rcases hx with rfl | rfl <;> rfl

private theorem keeps_keptStage (d : Table) (saved : Except CacheError Unit) (d' : Table) :
    (keptStage d saved d').account.Keeps [openCall] :=
  ⟨openDialogue, rfl, isWorthKeeping_openDialogue, rfl⟩

private theorem not_keeps_failedStage (d : Table) (calls : List ToolCall) :
    ¬ (failedStage d).account.Keeps calls := by
  rintro ⟨g, hdialogue, hworth, -⟩
  cases hdialogue
  exact not_isWorthKeeping_failedDialogue hworth

private theorem latest_open (d : Table) :
    Latest [keptStage bareTable (.ok ()) d, failedStage d] "llm" "open" [openCall] := by
  refine ⟨[], keptStage bareTable (.ok ()) d, [failedStage d], rfl, ⟨rfl, rfl⟩,
    keeps_keptStage _ _ d, ?_⟩
  intro y hy _ calls
  rw [List.mem_singleton.1 hy]
  exact not_keeps_failedStage d calls

set_option maxRecDepth 20000 in
theorem open_remembered_after_failure : ∃ d : Table,
    openWrite.run (toldTable bareTable) = (.ok (), d) ∧
      openCache.entry? (failedStage d).finish.files "llm" "open" =
        some (Json.Codec.encode [openCall]).indented.toUTF8 := by
  have hok : (openWrite.run (toldTable bareTable)).1 = .ok () := by decide +kernel
  rcases hwrite : openWrite.run (toldTable bareTable) with ⟨saved, d⟩
  rw [hwrite] at hok
  obtain rfl : saved = .ok () := hok
  obtain ⟨-, hall⟩ := entries_of_history openCache bareTable (orderly_bareTable _)
  have hfollows := (hall _ _ (history_open hwrite)).2 (isProper_open d)
  have hentry := hfollows.latest "llm" "open" [openCall] isFileName_llm (isDiscerned_open d)
    (latest_open d)
  exact ⟨d, rfl, hentry.1⟩

/-! ## A namespace that is a link -/

/-- Files where the namespace "old" is a link to the namespace of conversations. -/
def linkedFiles : FileTree :=
  ⟨.directory [("cache", .directory [("llm", .directory []), ("old", .link "llm")])], [], 0⟩

def linkedTable : Table := ⟨linkedFiles, ⟨[], []⟩⟩

private theorem isFileName_old : IsFileName "old" := by decide

set_option maxRecDepth 20000 in
/-- Where a namespace is a link to another one, a conversation changes the entries of both. -/
theorem not_forall_follows : ¬ ∀ (cache : Cache) (d : Table) (past : List (Stage Talk)) (d' : Table),
    History cache d past d' → (∀ x ∈ past, x.IsProper cache) → Follows cache d past d' := by
  intro h
  -- An entry is written in one namespace, and shows in the other.
  have hwritten : (openWrite.run (toldTable linkedTable)).1 = .ok () ∧
      (openCache.entry? (openWrite.run (toldTable linkedTable)).2.files "old" "open").isSome =
        true := by decide +kernel
  have hbefore : (openCache.entry? linkedTable.files "old" "open").isSome = false := by
    decide +kernel
  rcases hwrite : openWrite.run (toldTable linkedTable) with ⟨saved, d⟩
  rw [hwrite] at hwritten
  obtain ⟨rfl, hafter⟩ : saved = .ok () ∧
      (openCache.entry? d.files "old" "open").isSome = true := hwritten
  have hhistory : History openCache (keptStage linkedTable (.ok ()) d).start
      [keptStage linkedTable (.ok ()) d] d := .cons (goes_onceAsking hwrite) (.nil d)
  have hproper : ∀ x ∈ [keptStage linkedTable (.ok ()) d], x.IsProper openCache :=
    List.forall_mem_singleton.2 (isProper_keptStage linkedTable d)
  have hother : ¬ (keptStage linkedTable (.ok ()) d).IsOn "old" "open" := by
    rintro ⟨hscope, -⟩
    have hname : "llm" = "old" := hscope
    exact absurd hname (by decide)
  have hsame : openCache.entry? d.files "old" "open" =
      openCache.entry? linkedTable.files "old" "open" :=
    (h _ _ _ _ hhistory hproper).other _ (List.mem_singleton_self _) "old" "open" isFileName_old
      hother fun _ => rfl
  rw [hsame, hbefore] at hafter
  cases hafter

end StepScript
