import StepScript.Proofs.Job
import StepScript.Proofs.Slots

/-!
The life of a session's providers. A session is told to add providers, to start and to stop, to
carry out jobs, and to register handlers of its own, in any order, and any start may fail. In a
started session just the slots of its providers are running, and the last slot that lists a name
serves it; in any other none is running, and only the session's own handlers are registered.
-/

set_option autoImplicit false
set_option relaxedAutoImplicit false

namespace StepScript

variable {σ : Type}

/-! ## Orders -/

structure Ground (σ : Type) where
  settings : Settings
  script : Script
  matcher : Matcher (StateM σ)
  nesting : Nat

def Matcher.apart (matcher : Matcher (StateM σ)) : Matcher (StateM (Ledger σ)) where
  find patterns text := Log.lift (matcher.find patterns text)

structure Condition (σ : Type) where
  slots : List (Provider (StateM σ))
  handlers : Handlers (StateM (Ledger σ))
  gathered : Bindings
  started : Bool

def Ground.session (g : Ground σ) (c : Condition σ) : Session (StateM (Ledger σ)) :=
  ⟨g.settings, ⟨g.script, c.handlers, g.matcher.apart, g.nesting⟩, c.gathered,
    Provider.inSlots 0 c.slots, c.started⟩

def Condition.fresh (slots : List (Provider (StateM σ)))
    (handlers : Handlers (StateM (Ledger σ))) : Condition σ :=
  ⟨slots, handlers, Dict.empty, false⟩

private theorem Ground.session_fresh (g : Ground σ) (slots : List (Provider (StateM σ)))
    (handlers : Handlers (StateM (Ledger σ))) :
    g.session (.fresh slots handlers) =
      { Session.new g.settings ⟨g.script, handlers, g.matcher.apart, g.nesting⟩ with
        providers := Provider.inSlots 0 slots } := rfl

inductive Order (σ : Type)
  | add (p : Provider (StateM σ))
  | start
  | stop
  | execute (job : Job)
  | hooks (phase : Phase) (tags : List String)
  /-- To register a handler that is no provider's. -/
  | register (name : String) (handler : Handler (StateM σ))

namespace Order

def carryOut (s : Session (StateM (Ledger σ))) :
    Order σ → StateM (Ledger σ) (Session (StateM (Ledger σ)))
  | .add p => do return (← s.add (p.inSlot s.providers.length)).2
  | .start => do return (← s.start).2
  | .stop => s.stop
  | .execute job => do return (← s.run fun i gathered => i.perform gathered job).2
  | .hooks phase tags => do return (← s.runHooks phase tags).2
  | .register name handler => return s.withHandlers (s.handlers.insert name handler.apart)

def carryOutAll : List (Order σ) → Session (StateM (Ledger σ)) →
    StateM (Ledger σ) (Session (StateM (Ledger σ)))
  | [], s => return s
  | order :: rest, s => do carryOutAll rest (← order.carryOut s)

def added? : Order σ → Option (Provider (StateM σ))
  | .add p => some p
  | _ => none

def registered? : Order σ → Option (String × Handler (StateM (Ledger σ)))
  | .register name handler => some (name, handler.apart)
  | _ => none

def added (orders : List (Order σ)) : List (Provider (StateM σ)) := orders.filterMap added?

def direct (orders : List (Order σ)) : Handlers (StateM (Ledger σ)) :=
  Dict.ofList (orders.filterMap registered?)

/-- Providers register just their names, and no handler is registered directly under a name of
theirs. -/
structure AreSound (orders : List (Order σ)) : Prop where
  exact : ∀ p ∈ added orders, p.IsExact
  apart : ∀ p ∈ added orders, ∀ name ∈ p.names, (direct orders).find? name = none

private theorem added_concat (orders : List (Order σ)) (order : Order σ) :
    added (orders ++ [order]) = added orders ++ order.added?.toList := by
  unfold added
  rw [List.filterMap_append]
  cases order <;> rfl

private theorem direct_concat (orders : List (Order σ)) (order : Order σ) :
    direct (orders ++ [order]) =
      (direct orders).insertAll (order.registered?.toList) := by
  unfold direct Dict.ofList Dict.insertAll
  rw [List.filterMap_append, List.foldl_append]
  cases order <;> rfl

private theorem direct_of_mem {orders : List (Order σ)} {name : String}
    {handler : Handler (StateM (Ledger σ))} (h : (direct orders).find? name = some handler) :
    handler.IsQuiet := by
  have hmem := Dict.mem_of_mem_ofList (Dict.find?_eq_some_iff.1 h)
  obtain ⟨order, -, horder⟩ := List.mem_filterMap.1 hmem
  cases order with
  | register key inner =>
    cases horder
    exact inner.isQuiet_apart
  | _ => cases horder

private theorem AreSound.of_append {orders more : List (Order σ)} (h : AreSound (orders ++ more)) :
    AreSound orders := by
  have hmem (p : Provider (StateM σ)) (hp : p ∈ added orders) : p ∈ added (orders ++ more) := by
    unfold added
    rw [List.filterMap_append]
    exact List.mem_append_left _ hp
  refine ⟨fun p hp => h.exact p (hmem p hp), fun p hp name hname => ?_⟩
  have hnone := h.apart p (hmem p hp) name hname
  unfold direct at hnone ⊢
  rw [Dict.find?_ofList_eq_none_iff] at hnone ⊢
  intro hkey
  refine hnone ?_
  rw [List.filterMap_append, List.map_append]
  exact List.mem_append_left _ hkey

end Order

/-! ## Between two orders -/

namespace Condition

def running (c : Condition σ) : List (Provider (StateM σ)) := if c.started then c.slots else []

private theorem mem_slots_of_running (c : Condition σ) {p : Provider (StateM σ)}
    (h : p ∈ c.running) :
    p ∈ c.slots := by
  unfold running at h
  split at h
  · exact h
  · cases h

structure Fits (c : Condition σ) (orders : List (Order σ)) (notes : List Note) : Prop where
  among : c.slots.Sublist (Order.added orders)
  poised : Poised (Order.direct orders) c.running c.handlers notes

variable {g : Ground σ} {orders : List (Order σ)} {c : Condition σ} {l : Ledger σ}

/-- An order leads from one condition to another that fits. -/
private def Leads (g : Ground σ) (orders : List (Order σ)) (c : Condition σ) (l : Ledger σ)
    (order : Order σ) : Prop :=
  ∃ c' l', (order.carryOut (g.session c)).run l = (g.session c', l') ∧
    c'.Fits (orders ++ [order]) l'.entries

private theorem Fits.concat_of_none {order : Order σ} {notes : List Note} (h : c.Fits orders notes)
    (hadded : order.added? = none) (hregistered : order.registered? = none) :
    c.Fits (orders ++ [order]) notes := by
  constructor
  · rw [Order.added_concat, hadded, Option.toList_none, List.append_nil]
    exact h.among
  · rw [Order.direct_concat, hregistered]
    exact h.poised

/-! ### Adding -/

section

variable {slots : List (Provider (StateM σ))} {handlers : Handlers (StateM (Ledger σ))}
  {gathered : Bindings} {p : Provider (StateM σ)}

private theorem session_concat (g : Ground σ) (started : Bool) :
    g.session ⟨slots ++ [p], handlers, gathered, started⟩ =
      { g.session ⟨slots, handlers, gathered, started⟩ with
        providers := Provider.inSlots 0 slots ++ [p.inSlot (Provider.inSlots 0 slots).length] } := by
  rw [Provider.length_inSlots, Ground.session, Provider.inSlots_append, Nat.zero_add]
  rfl

private theorem leads_add_unstarted (h : Fits ⟨slots, handlers, gathered, false⟩ orders l.entries) :
    Leads g orders ⟨slots, handlers, gathered, false⟩ l (.add p) := by
  refine ⟨⟨slots ++ [p], handlers, gathered, false⟩, l, ?_, ?_, ?_⟩
  · rw [session_concat]
    rfl
  · rw [Order.added_concat]
    exact h.among.append (List.Sublist.refl _)
  · rw [Order.direct_concat]
    exact h.poised

private theorem leads_add_started (h : Fits ⟨slots, handlers, gathered, true⟩ orders l.entries)
    (hexact : p.IsExact) : Leads g orders ⟨slots, handlers, gathered, true⟩ l (.add p) := by
  have hpoised : Poised (Order.direct orders) slots handlers l.entries := h.poised
  have hlength := Provider.length_inSlots 0 slots
  rcases Provider.run_engage hexact (Provider.inSlots 0 slots).length handlers l with
    ⟨f, world, hrun⟩ | ⟨handlers', world, hrun, htakes⟩
  · have hadd : ((g.session ⟨slots, handlers, gathered, true⟩).add
        (p.inSlot (Provider.inSlots 0 slots).length)).run l =
        ((.error f, g.session ⟨slots, handlers, gathered, true⟩), _) := run_bind_of hrun
    refine ⟨_, _, run_bind_of hadd, ?_, ?_⟩
    · rw [Order.added_concat]
      exact h.among.trans (List.sublist_append_left _ _)
    · rw [Order.direct_concat]
      exact hpoised.of_idle fun slot => ⟨by simp [Note.starts], rfl⟩
  · have hadd : ((g.session ⟨slots, handlers, gathered, true⟩).add
        (p.inSlot (Provider.inSlots 0 slots).length)).run l =
        ((.ok (), g.session ⟨slots ++ [p], handlers', gathered, true⟩),
          ⟨l.entries ++ [.started (Provider.inSlots 0 slots).length true], world⟩) := by
      rw [session_concat]
      exact run_bind_of hrun
    rw [hlength] at htakes
    refine ⟨_, _, run_bind_of hadd, ?_, ?_⟩
    · rw [Order.added_concat]
      exact h.among.append (List.Sublist.refl _)
    · rw [Order.direct_concat, hlength]
      exact hpoised.concat htakes

end

private theorem Fits.leads_add {p : Provider (StateM σ)} (h : c.Fits orders l.entries)
    (hexact : p.IsExact) : Leads g orders c l (.add p) := by
  obtain ⟨slots, handlers, gathered, started⟩ := c
  cases started with
  | false => exact leads_add_unstarted h
  | true => exact leads_add_started h hexact

/-! ### Starting and stopping -/

private theorem Fits.leads_start (h : c.Fits orders l.entries) (hsound : Order.AreSound orders) :
    Leads g orders c l .start := by
  obtain ⟨slots, handlers, gathered, started⟩ := c
  have hafter (notes : List Note) (c' : Condition σ) (h' : c'.Fits orders notes) :
      c'.Fits (orders ++ [.start]) notes := h'.concat_of_none rfl rfl
  cases started with
  | true => exact ⟨_, l, rfl, hafter _ _ h⟩
  | false =>
    have hpoised : Poised (Order.direct orders) [] handlers l.entries := h.poised
    obtain ⟨result, handlers', l', hrun, hend⟩ :=
      Provider.run_engageAll slots [] (fun p hp => hsound.exact p (h.among.subset hp))
        (fun p hp => hsound.apart p (h.among.subset hp)) hpoised
    rcases hend with ⟨rfl, hall⟩ | ⟨⟨f, rfl⟩, hnone⟩
    · have hstart : (g.session ⟨slots, handlers, gathered, false⟩).start.run l =
          ((.ok (), g.session ⟨slots, handlers', gathered, true⟩), l') := run_bind_of hrun
      exact ⟨_, l', run_bind_of hstart, hafter _ _ ⟨h.among, hall⟩⟩
    · have hstart : (g.session ⟨slots, handlers, gathered, false⟩).start.run l =
          ((.error f, g.session ⟨slots, handlers', gathered, false⟩), l') := run_bind_of hrun
      exact ⟨_, l', run_bind_of hstart, hafter _ _ ⟨h.among, hnone⟩⟩

private theorem Fits.run_stop (h : c.Fits orders l.entries) (hsound : Order.AreSound orders) :
    ∃ l', (Order.stop.carryOut (g.session c)).run l =
        (g.session (.fresh c.slots (Order.direct orders)), l') ∧
      Fits (.fresh c.slots (Order.direct orders)) orders l'.entries := by
  obtain ⟨slots, handlers, gathered, started⟩ := c
  cases started with
  | false =>
    have hpoised : Poised (Order.direct orders) [] handlers l.entries := h.poised
    obtain rfl := hpoised.handlers_eq
    exact ⟨l, rfl, h.among, hpoised⟩
  | true =>
    have hpoised : Poised (Order.direct orders) slots handlers l.entries := h.poised
    obtain ⟨handlers', world, hrun, hfind⟩ := Provider.run_dismissAll slots handlers l
    have hnone := hpoised.dismiss (fun p hp => hsound.apart p (h.among.subset hp)) hfind
    obtain rfl := hnone.handlers_eq
    exact ⟨_, run_bind_of hrun, h.among, hnone⟩

/-! ### Carrying out jobs -/

private theorem Fits.isQuiet {notes : List Note} (h : c.Fits orders notes) {name : String}
    {handler : Handler (StateM (Ledger σ))} (hfind : c.handlers.find? name = some handler) :
    handler.IsQuiet := by
  by_cases hlisted : ∃ p ∈ c.running, name ∈ p.names
  · obtain ⟨slot, p, hlast⟩ := exists_isLast hlisted
    obtain ⟨found, hfound, hserves⟩ := h.poised.installed.served name slot p hlast
    rw [hfind] at hfound
    cases hfound
    exact hserves.isQuiet
  · rw [h.poised.installed.direct name fun p hp hname => hlisted ⟨p, hp, hname⟩] at hfind
    exact Order.direct_of_mem hfind

private theorem Fits.keepsTo {notes : List Note} (h : c.Fits orders notes) :
    (g.session c).interpreter.KeepsTo (Log.Adds Note.IsIdle) where
  path := Log.isPath_adds Note.IsIdle
  find patterns text := Log.along_lift Note.IsIdle (g.matcher.find patterns text)
  call _ _ hfind := h.isQuiet hfind

private theorem Fits.leads_run (h : c.Fits orders l.entries) {order : Order σ}
    {body : Interpreter (StateM (Ledger σ)) → Bindings → StateM (Ledger σ) RunResult}
    (horder : ∀ s, order.carryOut s = (do return (← s.run body).2))
    (hadded : order.added? = none) (hregistered : order.registered? = none)
    (hbody : Along (Log.Adds Note.IsIdle) (body (g.session c).interpreter c.gathered)) :
    Leads g orders c l order := by
  rcases hrun : (body (g.session c).interpreter c.gathered).run l with ⟨⟨result, gathered⟩, l'⟩
  obtain ⟨more, hmore, hidle⟩ := hbody.of_run hrun
  have hsession : ((g.session c).run body).run l =
      ((result, g.session { c with gathered := gathered }), l') := run_bind_of hrun
  refine ⟨{ c with gathered := gathered }, l', ?_, Fits.concat_of_none ?_ hadded hregistered⟩
  · rw [horder]
    exact run_bind_of hsession
  · rw [hmore]
    exact ⟨h.among, h.poised.of_idle (Note.counts_of_idle hidle)⟩

/-! ### Registering -/

private theorem Fits.leads_register (h : c.Fits orders l.entries) {name : String}
    {handler : Handler (StateM σ)} (hsound : Order.AreSound (orders ++ [.register name handler])) :
    Leads g orders c l (.register name handler) := by
  have hdirect : Order.direct (orders ++ [.register name handler]) =
      Dict.insert (Order.direct orders) name handler.apart := Order.direct_concat orders _
  have hadded : Order.added (orders ++ [.register name handler]) = Order.added orders := by
    rw [Order.added_concat]
    exact List.append_nil _
  have hapart : ∀ p ∈ c.running, name ∉ p.names := by
    intro p hp hname
    have hmem : p ∈ Order.added (orders ++ [.register name handler]) := by
      rw [hadded]
      exact h.among.subset (c.mem_slots_of_running hp)
    have hnone := hsound.apart p hmem name hname
    rw [hdirect, Dict.find?_insert, if_pos rfl] at hnone
    cases hnone
  refine ⟨{ c with handlers := Dict.insert c.handlers name handler.apart }, l, rfl, ?_, ?_⟩
  · rw [hadded]
    exact h.among
  · rw [hdirect]
    exact h.poised.insert hapart handler.apart

/-! ### Runs -/

private theorem Fits.leads (h : c.Fits orders l.entries) {order : Order σ}
    (hsound : Order.AreSound (orders ++ [order])) : Leads g orders c l order := by
  cases order with
  | add p =>
    refine h.leads_add (hsound.exact p ?_)
    rw [Order.added_concat]
    exact List.mem_append_right _ List.mem_cons_self
  | start => exact h.leads_start hsound.of_append
  | stop =>
    obtain ⟨l', hrun, hfits⟩ := h.run_stop hsound.of_append
    exact ⟨_, l', hrun, hfits.concat_of_none rfl rfl⟩
  | execute job =>
    refine h.leads_run (fun _ => rfl) rfl rfl ?_
    cases job with
    | actions actions args => exact h.keepsTo.runActions actions args _
    | step text => exact h.keepsTo.runStep text _
    | behavior concept text => exact h.keepsTo.runBehavior concept text _
  | hooks phase tags =>
    exact h.leads_run (fun _ => rfl) rfl rfl (h.keepsTo.runHooks phase tags _)
  | register name handler => exact h.leads_register hsound

private theorem Fits.run_carryOutAll {done : List (Order σ)} (h : c.Fits done l.entries)
    (orders : List (Order σ)) (hsound : Order.AreSound (done ++ orders)) :
    ∃ c' l', (Order.carryOutAll orders (g.session c)).run l = (g.session c', l') ∧
      c'.Fits (done ++ orders) l'.entries := by
  induction orders generalizing done c l with
  | nil => exact ⟨c, l, rfl, by rwa [List.append_nil]⟩
  | cons order rest ih =>
    have hall : done ++ order :: rest = done ++ [order] ++ rest := by simp
    rw [hall] at hsound ⊢
    obtain ⟨c₁, l₁, hfirst, h₁⟩ := h.leads hsound.of_append
    obtain ⟨c', l', hrest, h'⟩ := ih h₁ hsound
    exact ⟨c', l', (run_bind_of hfirst).trans hrest, h'⟩

/-- No provider is running, and none has a handler. -/
structure Rests (c : Condition σ) (orders : List (Order σ)) (notes : List Note) : Prop where
  balanced : ∀ slot, Note.starts slot notes = Note.stops slot notes
  unregistered : ∀ p ∈ Order.added orders, ∀ name ∈ p.names, c.handlers.find? name = none
  handlers : c.handlers = Order.direct orders

/-- Every provider is running, and each of their names has the handler of the last one. -/
structure Runs (c : Condition σ) (orders : List (Order σ)) (notes : List Note) : Prop where
  ahead : ∀ slot < c.slots.length, Note.starts slot notes = Note.stops slot notes + 1
  registered : ∀ p ∈ Order.added orders, ∀ name ∈ p.names,
    (c.handlers.find? name).isSome ↔ ∃ q ∈ c.slots, name ∈ q.names
  served : ∀ name slot p, IsLast c.slots name slot p →
    ∃ handler, c.handlers.find? name = some handler ∧ p.Serves slot name handler
  direct : ∀ name, (∀ p ∈ Order.added orders, name ∉ p.names) →
    c.handlers.find? name = (Order.direct orders).find? name

variable {notes : List Note}

private theorem Fits.rests (h : c.Fits orders notes) (hsound : Order.AreSound orders)
    (hstarted : c.started = false) : c.Rests orders notes := by
  obtain ⟨slots, handlers, gathered, started⟩ := c
  obtain rfl : started = false := hstarted
  have hpoised : Poised (Order.direct orders) [] handlers notes := h.poised
  have hhandlers := hpoised.handlers_eq
  refine ⟨fun slot => hpoised.idle slot (Nat.zero_le slot), fun p hp name hname => ?_, hhandlers⟩
  rw [hhandlers]
  exact hsound.apart p hp name hname

private theorem Fits.runs (h : c.Fits orders notes) (hsound : Order.AreSound orders)
    (hstarted : c.started = true) : c.Runs orders notes := by
  obtain ⟨slots, handlers, gathered, started⟩ := c
  obtain rfl : started = true := hstarted
  have hpoised : Poised (Order.direct orders) slots handlers notes := h.poised
  refine ⟨hpoised.running, fun p hp name hname => ?_, hpoised.installed.served,
    fun name hnone => ?_⟩
  · constructor
    · intro hsome
      by_contra hlisted
      have hdirect := hpoised.installed.direct name fun q hq hmem => hlisted ⟨q, hq, hmem⟩
      rw [hdirect, hsound.apart p hp name hname] at hsome
      cases hsome
    · intro hlisted
      obtain ⟨slot, q, hlast⟩ := exists_isLast hlisted
      obtain ⟨handler, hfind, -⟩ := hpoised.installed.served name slot q hlast
      rw [hfind]
      rfl
  · exact hpoised.installed.direct name fun q hq => hnone q (h.among.subset hq)

end Condition

namespace Order

private theorem run_concat {before : List (Order σ)} {s s' : Session (StateM (Ledger σ))}
    {l l' : Ledger σ} (h : (carryOutAll before s).run l = (s', l')) (order : Order σ) :
    (carryOutAll (before ++ [order]) s).run l = (order.carryOut s').run l' := by
  induction before generalizing s l with
  | nil =>
    cases h
    exact congrArg (fun x => StateT.run x l') (bind_pure (order.carryOut s'))
  | cons first before ih =>
    rcases hfirst : (first.carryOut s).run l with ⟨s₁, l₁⟩
    have hrest : (carryOutAll (first :: before) s).run l = (carryOutAll before s₁).run l₁ :=
      run_bind_of hfirst
    rw [hrest] at h
    exact (run_bind_of hfirst).trans (ih h)

/-- Whatever a session is told, its providers run in a started session and in no other, and a
session that was stopped is like a new one with the same providers. -/
theorem session_in_cycle (g : Ground σ) (orders : List (Order σ)) (hsound : AreSound orders)
    (world : σ) :
    ∃ c notes world',
      (carryOutAll orders (g.session (.fresh [] Dict.empty))).run ⟨[], world⟩ =
          (g.session c, ⟨notes, world'⟩) ∧
        c.slots.Sublist (added orders) ∧
        (c.started = false → c.Rests orders notes) ∧
        (c.started = true → c.Runs orders notes) ∧
        ∀ before, orders = before ++ [.stop] →
          g.session c =
            { Session.new g.settings ⟨g.script, direct orders, g.matcher.apart, g.nesting⟩ with
              providers := Provider.inSlots 0 c.slots } := by
  have hfresh : (Condition.fresh [] Dict.empty : Condition σ).Fits [] (Log.mk [] world).entries :=
    ⟨.slnil, fun _ h => absurd h (Nat.not_lt_zero _), fun _ _ => rfl, installed_nil Dict.empty⟩
  obtain ⟨c, l', hrun, hfits⟩ := hfresh.run_carryOutAll orders hsound
  refine ⟨c, l'.entries, l'.world, hrun, hfits.among, hfits.rests hsound, hfits.runs hsound, ?_⟩
  rintro before rfl
  obtain ⟨c₁, l₁, hbefore, h₁⟩ := hfresh.run_carryOutAll before hsound.of_append
  obtain ⟨l₂, hstop, -⟩ := h₁.run_stop hsound.of_append
  have hsession : g.session c = g.session (.fresh c₁.slots (direct before)) :=
    congrArg Prod.fst (hrun.symm.trans ((run_concat hbefore .stop).trans hstop))
  have hproviders : Provider.inSlots 0 c.slots = Provider.inSlots 0 c₁.slots :=
    congrArg Session.providers hsession
  have hdirect : direct (before ++ [.stop]) = direct before := direct_concat before .stop
  rw [hproviders, hdirect, hsession]
  exact g.session_fresh c₁.slots (direct before)

end Order

/-! ## A provider in two slots -/

def opener : Provider (StateM Unit) where
  names := ["open"]
  start := return .ok ()
  stop := return ()
  handlers := return [("open", fun _ _ => return .finished .ok)]

def openerGround : Ground Unit :=
  ⟨Settings.default, ⟨[], [], []⟩, ⟨fun _ _ => return .ok none⟩, 0⟩

def openerOrders : List (Order Unit) := [.add opener, .start, .add opener]

theorem opener_served_by_second :
    ∃ handler, (((Order.carryOutAll openerOrders
        (openerGround.session (.fresh [] Dict.empty))).run ⟨[], ()⟩).1.handlers.find? "open" =
      some handler) ∧ opener.Serves 1 "open" handler := by
  have hexact : opener.IsExact := fun _ _ => Iff.rfl
  have hadded : Order.added openerOrders = [opener, opener] := rfl
  have hsound : Order.AreSound openerOrders := by
    refine ⟨fun p hp => ?_, fun _ _ _ _ => rfl⟩
    rw [hadded] at hp
    obtain rfl : p = opener := by simpa using hp
    exact hexact
  obtain ⟨c, notes, world, hrun, hamong, -, hstarted, -⟩ :=
    Order.session_in_cycle openerGround openerOrders hsound ()
  have hsession := congrArg Prod.fst hrun
  have hon : c.started = true := (congrArg Session.started hsession).symm
  have hlength : (Provider.inSlots 0 c.slots).length = 2 :=
    (congrArg (fun s => s.providers.length) hsession).symm
  have hslots : c.slots = [opener, opener] := by
    rw [hadded] at hamong
    exact hamong.eq_of_length ((Provider.length_inSlots 0 c.slots).symm.trans hlength)
  have hlast : IsLast c.slots "open" 1 opener := by
    rw [hslots]
    exact ⟨[opener], [], rfl, rfl, List.mem_cons_self, nofun⟩
  rw [hrun]
  exact (hstarted hon).served "open" 1 opener hlast

end StepScript
