import Mathlib.Data.List.Induction
import StepScript.Proofs.Log
import StepScript.Session

/-!
Providers in numbered slots. A log tells when the provider in a slot was started or stopped and when
one of its handlers was called. Engaging providers in order leaves each name with the last slot that
lists it; dismissing them takes out all their names, whichever slot they were left with.
-/

set_option autoImplicit false
set_option relaxedAutoImplicit false

namespace StepScript

variable {σ : Type}

inductive Note
  | started (slot : Nat) (ok : Bool)
  | stopped (slot : Nat)
  | served (slot : Nat) (name : String)
  deriving DecidableEq

abbrev Ledger (σ : Type) := Log Note σ

namespace Note

def starts (slot : Nat) (notes : List Note) : Nat := notes.count (.started slot true)

def stops (slot : Nat) (notes : List Note) : Nat := notes.count (.stopped slot)

def IsIdle : Note → Prop
  | .served _ _ => True
  | _ => False

private theorem starts_append (slot : Nat) (notes more : List Note) :
    starts slot (notes ++ more) = starts slot notes + starts slot more := List.count_append

private theorem stops_append (slot : Nat) (notes more : List Note) :
    stops slot (notes ++ more) = stops slot notes + stops slot more := List.count_append

theorem counts_of_idle {notes : List Note} (h : ∀ e ∈ notes, e.IsIdle) (slot : Nat) :
    starts slot notes = 0 ∧ stops slot notes = 0 := by
  constructor
  · exact List.count_eq_zero.2 fun hmem => h _ hmem
  · exact List.count_eq_zero.2 fun hmem => h _ hmem

end Note

/-! ## Handlers -/

def Handler.inSlot (handler : Handler (StateM σ)) (slot : Nat) (name : String) :
    Handler (StateM (Ledger σ)) :=
  fun text arg => Log.noting (fun _ => .served slot name) (handler text arg)

def Handler.apart (handler : Handler (StateM σ)) : Handler (StateM (Ledger σ)) :=
  fun text arg => Log.lift (handler text arg)

/-- A handler notes nothing but calls of handlers. -/
def Handler.IsQuiet (handler : Handler (StateM (Ledger σ))) : Prop :=
  ∀ text arg, Along (Log.Adds Note.IsIdle) (handler text arg)

private theorem Handler.isQuiet_inSlot (handler : Handler (StateM σ)) (slot : Nat) (name : String) :
    (handler.inSlot slot name).IsQuiet :=
  fun text arg => Log.along_noting (fun _ => trivial) (handler text arg)

theorem Handler.isQuiet_apart (handler : Handler (StateM σ)) : handler.apart.IsQuiet :=
  fun text arg => Log.along_lift _ (handler text arg)

/-- A handler that is installed comes before one that was there. -/
theorem Handlers.find?_install (handlers : Handlers (StateM σ))
    (more : List (String × Handler (StateM σ))) (name : String) :
    (handlers.install more).find? name =
      ((Dict.ofList more).find? name).or (handlers.find? name) := by
  rw [Handlers.install, Dict.find?_insertAll, Dict.ofList, Dict.find?_insertAll, Dict.find?_empty,
    Option.or_none]

/-! ## Providers -/

namespace Provider

/-- A provider registers handlers for its names, and for no others. -/
def IsExact (p : Provider (StateM σ)) : Prop :=
  ∀ world name, name ∈ (p.handlers.run world).1.map Prod.fst ↔ name ∈ p.names

def inSlot (p : Provider (StateM σ)) (slot : Nat) : Provider (StateM (Ledger σ)) where
  names := p.names
  start := Log.noting (fun result => .started slot result.isOk) p.start
  stop := Log.noting (fun _ => .stopped slot) p.stop
  handlers := Log.lift do
    return (← p.handlers).map fun entry => (entry.1, entry.2.inSlot slot entry.1)

def inSlots : Nat → List (Provider (StateM σ)) → List (Provider (StateM (Ledger σ)))
  | _, [] => []
  | slot, p :: rest => p.inSlot slot :: inSlots (slot + 1) rest

theorem length_inSlots (slot : Nat) (ps : List (Provider (StateM σ))) :
    (inSlots slot ps).length = ps.length := by
  induction ps generalizing slot with
  | nil => rfl
  | cons p ps ih => simp [inSlots, ih]

theorem inSlots_append (slot : Nat) (ps qs : List (Provider (StateM σ))) :
    inSlots slot (ps ++ qs) = inSlots slot ps ++ inSlots (slot + ps.length) qs := by
  induction ps generalizing slot with
  | nil => rfl
  | cons p ps ih =>
    have hnext : slot + 1 + ps.length = slot + (ps.length + 1) := by omega
    simp [inSlots, ih, hnext]

/-- A handler is one that a provider has for a name, and its calls are noted under a slot. -/
def Serves (p : Provider (StateM σ)) (slot : Nat) (name : String)
    (handler : Handler (StateM (Ledger σ))) : Prop :=
  ∃ world inner, (name, inner) ∈ (p.handlers.run world).1 ∧ handler = inner.inSlot slot name

theorem Serves.isQuiet {p : Provider (StateM σ)} {slot : Nat} {name : String}
    {handler : Handler (StateM (Ledger σ))} (h : p.Serves slot name handler) : handler.IsQuiet := by
  obtain ⟨_, inner, -, rfl⟩ := h
  exact inner.isQuiet_inSlot slot name

structure Takes (p : Provider (StateM σ)) (slot : Nat)
    (handlers handlers' : Handlers (StateM (Ledger σ))) : Prop where
  own : ∀ name ∈ p.names,
    ∃ handler, handlers'.find? name = some handler ∧ p.Serves slot name handler
  other : ∀ name, name ∉ p.names → handlers'.find? name = handlers.find? name

private theorem IsExact.takes {p : Provider (StateM σ)} (h : p.IsExact) (slot : Nat)
    (handlers : Handlers (StateM (Ledger σ))) (world : σ) :
    p.Takes slot handlers (handlers.install
      ((p.handlers.run world).1.map fun entry => (entry.1, entry.2.inSlot slot entry.1))) := by
  let entries := (p.handlers.run world).1.map fun entry => (entry.1, entry.2.inSlot slot entry.1)
  have hfind := handlers.find?_install entries
  have hkeys (name : String) : (Dict.ofList entries).find? name = none ↔ name ∉ p.names := by
    have hsame : entries.map Prod.fst = (p.handlers.run world).1.map Prod.fst := by
      simp [entries, Function.comp_def]
    rw [← h world name, Dict.find?_ofList_eq_none_iff, hsame]
  constructor
  · intro name hname
    cases hown : (Dict.ofList entries).find? name with
    | none => exact absurd hname ((hkeys name).1 hown)
    | some handler =>
      refine ⟨handler, by rw [hfind, hown, Option.some_or], world, ?_⟩
      have hmem := Dict.mem_of_mem_ofList (Dict.find?_eq_some_iff.1 hown)
      obtain ⟨⟨key, inner⟩, hinner, heq⟩ := List.mem_map.1 hmem
      cases heq
      exact ⟨inner, hinner, rfl⟩
  · intro name hname
    rw [hfind, (hkeys name).2 hname, Option.none_or]

theorem run_engage {p : Provider (StateM σ)} (hexact : p.IsExact) (slot : Nat)
    (handlers : Handlers (StateM (Ledger σ))) (l : Ledger σ) :
    (∃ f world', ((p.inSlot slot).engage handlers).run l =
        (.error f, ⟨l.entries ++ [.started slot false], world'⟩)) ∨
      ∃ handlers' world', ((p.inSlot slot).engage handlers).run l =
          (.ok handlers', ⟨l.entries ++ [.started slot true], world'⟩) ∧
        p.Takes slot handlers handlers' := by
  rcases hstart : p.start.run l.world with ⟨result, world⟩
  have hnoted := Log.run_noting (fun result => Note.started slot result.isOk) hstart l.entries
  unfold engage
  cases result with
  | error t => exact .inl ⟨.provider t.chain, world, run_bind_of hnoted⟩
  | ok _ =>
    have htakes := hexact.takes slot handlers world
    exact .inr ⟨_, (p.handlers.run world).2, run_bind_of hnoted, htakes⟩

end Provider

theorem Handlers.find?_uninstall (handlers : Handlers (StateM σ)) (names : List String)
    (name : String) :
    (handlers.uninstall names).find? name = if name ∈ names then none else handlers.find? name := by
  induction names generalizing handlers with
  | nil => simp [Handlers.uninstall]
  | cons first names ih =>
    have hstep : handlers.uninstall (first :: names) =
        Handlers.uninstall (handlers.erase first) names := rfl
    rw [hstep, ih, Dict.find?_erase]
    by_cases hmem : name ∈ names
    · simp [hmem]
    · by_cases hfirst : first = name
      · simp [hfirst]
      · have hne : name ≠ first := fun h => hfirst h.symm
        simp [hmem, hfirst, hne]

/-! ## Dismissing -/

def Note.stoppedDown : Nat → List Note
  | 0 => []
  | n + 1 => .stopped n :: stoppedDown n

private theorem Note.counts_stoppedDown (slot n : Nat) : starts slot (stoppedDown n) = 0 ∧
    stops slot (stoppedDown n) = if slot < n then 1 else 0 := by
  induction n with
  | zero => exact ⟨rfl, rfl⟩
  | succ n ih =>
    obtain ⟨hstarts, hstops⟩ := ih
    unfold starts at hstarts ⊢
    unfold stops at hstops ⊢
    constructor
    · rw [stoppedDown, List.count_cons_of_ne (by simp), hstarts]
    · rw [stoppedDown, List.count_cons, hstops]
      by_cases hslot : slot = n
      · subst hslot
        simp
      · have hne : ¬ n = slot := fun h => hslot h.symm
        have hlt : slot < n + 1 ↔ slot < n := by omega
        simp [hne, hlt]

namespace Provider

theorem run_dismissAll (ps : List (Provider (StateM σ))) (handlers : Handlers (StateM (Ledger σ)))
    (l : Ledger σ) :
    ∃ handlers' world', (dismissAll (inSlots 0 ps).reverse handlers).run l =
        (handlers', ⟨l.entries ++ Note.stoppedDown ps.length, world'⟩) ∧
      ∀ name, ((∃ p ∈ ps, name ∈ p.names) → handlers'.find? name = none) ∧
        ((∀ p ∈ ps, name ∉ p.names) → handlers'.find? name = handlers.find? name) := by
  induction ps using List.reverseRecOn generalizing handlers l with
  | nil =>
    refine ⟨handlers, l.world, ?_, fun name => ⟨?_, fun _ => rfl⟩⟩
    · rw [List.length_nil, Note.stoppedDown, List.append_nil]
      rfl
    · rintro ⟨p, hp, -⟩
      cases hp
  | append_singleton ps p ih =>
    rcases hstop : p.stop.run l.world with ⟨_, world⟩
    have hnoted := Log.run_noting (fun _ => Note.stopped ps.length) hstop l.entries
    obtain ⟨handlers', world', hrest, hfind⟩ :=
      ih (handlers.uninstall p.names) ⟨l.entries ++ [.stopped ps.length], world⟩
    refine ⟨handlers', world', ?_, fun name => ⟨?_, fun hnone => ?_⟩⟩
    · rw [inSlots_append, Nat.zero_add, List.reverse_append]
      refine (run_bind_of hnoted).trans (hrest.trans ?_)
      simp [Note.stoppedDown]
    · rintro ⟨q, hq, hname⟩
      by_cases hps : ∃ p ∈ ps, name ∈ p.names
      · exact (hfind name).1 hps
      · have hlast : q = p := by
          rcases List.mem_append.1 hq with hq | hq
          · exact absurd ⟨q, hq, hname⟩ hps
          · exact List.mem_singleton.1 hq
        rw [(hfind name).2 fun p hp hmem => hps ⟨p, hp, hmem⟩, Handlers.find?_uninstall,
          if_pos (hlast ▸ hname)]
    · rw [(hfind name).2 fun q hq => hnone q (List.mem_append_left _ hq),
        Handlers.find?_uninstall, if_neg (hnone p (by simp))]

end Provider

/-! ## Slots that are in use -/

def IsLast (ps : List (Provider (StateM σ))) (name : String) (slot : Nat)
    (p : Provider (StateM σ)) : Prop :=
  ∃ before after, ps = before ++ p :: after ∧ before.length = slot ∧ name ∈ p.names ∧
    ∀ q ∈ after, name ∉ q.names

private theorem IsLast.concat {ps : List (Provider (StateM σ))} {p q : Provider (StateM σ)}
    {name : String} {slot : Nat} (h : IsLast (ps ++ [p]) name slot q) :
    name ∈ p.names ∧ slot = ps.length ∧ q = p ∨ name ∉ p.names ∧ IsLast ps name slot q := by
  obtain ⟨before, after, hps, rfl, hname, hafter⟩ := h
  rcases List.eq_nil_or_concat after with rfl | ⟨init, r, rfl⟩
  · obtain ⟨rfl, hlast⟩ := List.append_inj' hps rfl
    cases hlast
    exact .inl ⟨hname, rfl, rfl⟩
  · rw [List.concat_eq_append, ← List.cons_append, ← List.append_assoc] at hps
    obtain ⟨rfl, hlast⟩ := List.append_inj' hps rfl
    cases hlast
    refine .inr ⟨hafter p (by simp), before, init, rfl, rfl, hname, fun s hs => ?_⟩
    exact hafter s (by simp [hs])

theorem exists_isLast {ps : List (Provider (StateM σ))} {name : String}
    (h : ∃ p ∈ ps, name ∈ p.names) : ∃ slot p, IsLast ps name slot p := by
  induction ps with
  | nil =>
    obtain ⟨p, hp, -⟩ := h
    cases hp
  | cons first ps ih =>
    by_cases hrest : ∃ p ∈ ps, name ∈ p.names
    · obtain ⟨slot, p, before, after, rfl, -, hname, hafter⟩ := ih hrest
      exact ⟨_, p, first :: before, after, rfl, rfl, hname, hafter⟩
    · obtain ⟨p, hp, hname⟩ := h
      have hnone : ∀ q ∈ ps, name ∉ q.names := fun q hq hmem => hrest ⟨q, hq, hmem⟩
      rcases List.mem_cons.1 hp with rfl | hp
      · exact ⟨0, p, [], ps, rfl, rfl, hname, hnone⟩
      · exact absurd hname (hnone p hp)

/-- Each name is served by the last slot that lists it, and directly if there is none. -/
structure Installed (direct : Handlers (StateM (Ledger σ))) (ps : List (Provider (StateM σ)))
    (handlers : Handlers (StateM (Ledger σ))) : Prop where
  served : ∀ name slot p, IsLast ps name slot p →
    ∃ handler, handlers.find? name = some handler ∧ p.Serves slot name handler
  direct : ∀ name, (∀ p ∈ ps, name ∉ p.names) → handlers.find? name = direct.find? name

theorem installed_nil (direct : Handlers (StateM (Ledger σ))) : Installed direct [] direct := by
  refine ⟨fun name slot p hlast => ?_, fun _ _ => rfl⟩
  obtain ⟨before, after, hps, -⟩ := hlast
  simp at hps

private theorem Installed.concat {direct handlers handlers' : Handlers (StateM (Ledger σ))}
    {ps : List (Provider (StateM σ))} {p : Provider (StateM σ)} (h : Installed direct ps handlers)
    (htakes : p.Takes ps.length handlers handlers') : Installed direct (ps ++ [p]) handlers' := by
  constructor
  · intro name slot q hlast
    rcases hlast.concat with ⟨hname, rfl, rfl⟩ | ⟨hname, hbefore⟩
    · exact htakes.own name hname
    · rw [htakes.other name hname]
      exact h.served name slot q hbefore
  · intro name hnone
    rw [htakes.other name (hnone p (by simp))]
    exact h.direct name fun q hq => hnone q (List.mem_append_left _ hq)

private theorem IsLast.mem {ps : List (Provider (StateM σ))} {name : String} {slot : Nat}
    {p : Provider (StateM σ)} (h : IsLast ps name slot p) : p ∈ ps ∧ name ∈ p.names := by
  obtain ⟨before, after, rfl, -, hname, -⟩ := h
  exact ⟨by simp, hname⟩

private theorem Installed.insert {direct handlers : Handlers (StateM (Ledger σ))}
    {ps : List (Provider (StateM σ))} {name : String} (h : Installed direct ps handlers)
    (hapart : ∀ p ∈ ps, name ∉ p.names) (handler : Handler (StateM (Ledger σ))) :
    Installed (Dict.insert direct name handler) ps (Dict.insert handlers name handler) := by
  constructor
  · intro other slot p hlast
    have hne : name ≠ other := by
      rintro rfl
      exact hapart p hlast.mem.1 hlast.mem.2
    rw [Dict.find?_insert, if_neg hne]
    exact h.served other slot p hlast
  · intro other hnone
    rw [Dict.find?_insert, Dict.find?_insert, h.direct other hnone]

/-- Just these slots are running: each of them was started once more than it was stopped. -/
structure Poised (direct : Handlers (StateM (Ledger σ))) (ps : List (Provider (StateM σ)))
    (handlers : Handlers (StateM (Ledger σ))) (notes : List Note) : Prop where
  running : ∀ slot < ps.length, Note.starts slot notes = Note.stops slot notes + 1
  idle : ∀ slot, ps.length ≤ slot → Note.starts slot notes = Note.stops slot notes
  installed : Installed direct ps handlers

namespace Poised

variable {direct handlers handlers' : Handlers (StateM (Ledger σ))}
  {ps : List (Provider (StateM σ))} {notes : List Note}

theorem handlers_eq (h : Poised direct [] handlers notes) : handlers = direct :=
  Dict.ext_find? fun name => h.installed.direct name nofun

theorem of_idle {more : List Note} (h : Poised direct ps handlers notes)
    (hmore : ∀ slot, Note.starts slot more = 0 ∧ Note.stops slot more = 0) :
    Poised direct ps handlers (notes ++ more) := by
  refine ⟨fun slot hslot => ?_, fun slot hslot => ?_, h.installed⟩
  · rw [Note.starts_append, Note.stops_append, (hmore slot).1, (hmore slot).2]
    exact h.running slot hslot
  · rw [Note.starts_append, Note.stops_append, (hmore slot).1, (hmore slot).2]
    exact h.idle slot hslot

theorem concat {p : Provider (StateM σ)} (h : Poised direct ps handlers notes)
    (htakes : p.Takes ps.length handlers handlers') :
    Poised direct (ps ++ [p]) handlers' (notes ++ [.started ps.length true]) := by
  have hstops (slot : Nat) : Note.stops slot [.started ps.length true] = 0 := rfl
  have hstarts (slot : Nat) : Note.starts slot [.started ps.length true] =
      if slot = ps.length then 1 else 0 := by
    unfold Note.starts
    by_cases hslot : slot = ps.length
    · simp [hslot]
    · have hne : ¬ ps.length = slot := fun heq => hslot heq.symm
      simp [hslot, hne]
  refine ⟨fun slot hslot => ?_, fun slot hslot => ?_, h.installed.concat htakes⟩
  · rw [Note.starts_append, Note.stops_append, hstarts, hstops]
    rw [List.length_append, List.length_singleton] at hslot
    by_cases hlast : slot = ps.length
    · rw [if_pos hlast, h.idle slot (by omega)]
    · rw [if_neg hlast, h.running slot (by omega)]
  · rw [List.length_append, List.length_singleton] at hslot
    rw [Note.starts_append, Note.stops_append, hstarts, hstops, if_neg (by omega),
      h.idle slot (by omega)]

theorem insert {name : String} (h : Poised direct ps handlers notes)
    (hapart : ∀ p ∈ ps, name ∉ p.names) (handler : Handler (StateM (Ledger σ))) :
    Poised (Dict.insert direct name handler) ps (Dict.insert handlers name handler) notes :=
  ⟨h.running, h.idle, h.installed.insert hapart handler⟩

theorem dismiss (h : Poised direct ps handlers notes)
    (hdirect : ∀ p ∈ ps, ∀ name ∈ p.names, direct.find? name = none)
    (hfind : ∀ name, ((∃ p ∈ ps, name ∈ p.names) → handlers'.find? name = none) ∧
      ((∀ p ∈ ps, name ∉ p.names) → handlers'.find? name = handlers.find? name)) :
    Poised direct [] handlers' (notes ++ Note.stoppedDown ps.length) := by
  have hsame : handlers' = direct := by
    refine Dict.ext_find? fun name => ?_
    by_cases hown : ∃ p ∈ ps, name ∈ p.names
    · obtain ⟨p, hp, hname⟩ := hown
      rw [(hfind name).1 ⟨p, hp, hname⟩, hdirect p hp name hname]
    · have hnone : ∀ p ∈ ps, name ∉ p.names := fun p hp hname => hown ⟨p, hp, hname⟩
      rw [(hfind name).2 hnone, h.installed.direct name hnone]
  refine ⟨nofun, fun slot _ => ?_, hsame ▸ installed_nil direct⟩
  obtain ⟨hstarts, hstops⟩ := Note.counts_stoppedDown slot ps.length
  rw [Note.starts_append, Note.stops_append, hstarts, hstops]
  by_cases hslot : slot < ps.length
  · rw [if_pos hslot, h.running slot hslot]
  · rw [if_neg hslot, h.idle slot (by omega)]

end Poised

/-! ## Engaging -/

/-- Engaging more providers ends with all of them running, or with none. -/
theorem Provider.run_engageAll {direct : Handlers (StateM (Ledger σ))}
    (more before : List (Provider (StateM σ))) {handlers : Handlers (StateM (Ledger σ))}
    {l : Ledger σ} (hexact : ∀ p ∈ before ++ more, p.IsExact)
    (hdirect : ∀ p ∈ before ++ more, ∀ name ∈ p.names, direct.find? name = none)
    (h : Poised direct before handlers l.entries) :
    ∃ result handlers' l',
      (engageAll (inSlots before.length more) (inSlots 0 before).reverse handlers).run l =
        ((result, handlers'), l') ∧
      (result = .ok () ∧ Poised direct (before ++ more) handlers' l'.entries ∨
        (∃ f, result = .error f) ∧ Poised direct [] handlers' l'.entries) := by
  induction more generalizing before handlers l with
  | nil =>
    rw [List.append_nil]
    exact ⟨.ok (), handlers, l, rfl, .inl ⟨rfl, h⟩⟩
  | cons p more ih =>
    rw [inSlots, engageAll]
    rcases run_engage (hexact p (by simp)) before.length handlers l with
      ⟨f, world, hrun⟩ | ⟨handlers₁, world, hrun, htakes⟩
    · have hfailed : Poised direct before handlers
          (l.entries ++ [.started before.length false]) :=
        h.of_idle fun slot => ⟨by simp [Note.starts], rfl⟩
      obtain ⟨handlers', world', hdismiss, hfind⟩ :=
        run_dismissAll before handlers ⟨l.entries ++ [.started before.length false], world⟩
      have hstopped := hfailed.dismiss
        (fun q hq => hdirect q (List.mem_append_left _ hq)) hfind
      refine ⟨.error f, handlers', ⟨_, world'⟩, ?_, .inr ⟨⟨f, rfl⟩, hstopped⟩⟩
      exact (run_bind_of hrun).trans (run_bind_of hdismiss)
    · have hgrown : Poised direct (before ++ [p]) handlers₁
          (Log.mk (l.entries ++ [.started before.length true]) world).entries := h.concat htakes
      have hall : before ++ p :: more = before ++ [p] ++ more := by simp
      rw [hall] at hexact hdirect ⊢
      obtain ⟨result, handlers', l', hrest, hend⟩ := ih (before ++ [p]) hexact hdirect hgrown
      refine ⟨result, handlers', l', (run_bind_of hrun).trans ?_, hend⟩
      rw [← hrest, inSlots_append, List.length_append, List.length_singleton]
      simp [inSlots]

end StepScript
