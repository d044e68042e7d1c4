import StepScript.Proofs.Slots

/-!
A start that fails. The providers before the one that fails have been started and have registered
their handlers; these are taken out again and those providers stopped, the last one first. The
provider that fails is neither registered nor stopped, and nothing is asked of those after it.
-/

set_option autoImplicit false
set_option relaxedAutoImplicit false

namespace StepScript

variable {σ : Type}

/-! ## Demands -/

inductive Demand
  | start (slot : Nat)
  | register (slot : Nat)
  | unregister (slot : Nat)
  | stop (slot : Nat)
  deriving DecidableEq

namespace Demand

def slot : Demand → Nat
  | .start slot => slot
  | .register slot => slot
  | .unregister slot => slot
  | .stop slot => slot

def make (p : Provider (StateM σ)) (handlers : Handlers (StateM σ)) :
    Demand → StateM σ (Handlers (StateM σ))
  | .start _ => do
    let _ ← p.start
    return handlers
  | .register _ => return handlers.install (← p.handlers)
  | .unregister _ => return handlers.uninstall p.names
  | .stop _ => do
    p.stop
    return handlers

def makeAll (ps : List (Provider (StateM σ))) :
    List Demand → Handlers (StateM σ) → StateM σ (Handlers (StateM σ))
  | [], handlers => return handlers
  | demand :: rest, handlers =>
    match ps[demand.slot]? with
    | none => makeAll ps rest handlers
    | some p => do makeAll ps rest (← demand.make p handlers)

def upFrom : Nat → Nat → List Demand
  | _, 0 => []
  | slot, n + 1 => .start slot :: .register slot :: upFrom (slot + 1) n

def downFrom : Nat → List Demand
  | 0 => []
  | n + 1 => .unregister n :: .stop n :: downFrom n

/-- The demands of a start that fails in a slot. -/
def failingAt (slot : Nat) : List Demand := upFrom 0 slot ++ .start slot :: downFrom slot

example : failingAt 2 =
    [.start 0, .register 0, .start 1, .register 1, .start 2,
      .unregister 1, .stop 1, .unregister 0, .stop 0] := rfl

private theorem makeAll_append (ps : List (Provider (StateM σ))) (demands more : List Demand)
    (handlers : Handlers (StateM σ)) :
    makeAll ps (demands ++ more) handlers = makeAll ps demands handlers >>= makeAll ps more := by
  induction demands generalizing handlers with
  | nil => rfl
  | cons demand demands ih =>
    rw [List.cons_append, makeAll, makeAll]
    cases ps[demand.slot]? with
    | none => exact ih handlers
    | some p =>
      simp only [ih]
      rfl

private theorem makeAll_cons {demand : Demand} {before : List (Provider (StateM σ))}
    (hslot : demand.slot = before.length) (p : Provider (StateM σ))
    (after : List (Provider (StateM σ))) (rest : List Demand) (handlers : Handlers (StateM σ)) :
    makeAll (before ++ p :: after) (demand :: rest) handlers =
      demand.make p handlers >>= makeAll (before ++ p :: after) rest := by
  have hp : (before ++ p :: after)[demand.slot]? = some p := by simp [hslot]
  rw [makeAll, hp]

end Demand

namespace Provider

/-! ## Dismissing -/

private theorem dismissAll_reverse (before after : List (Provider (StateM σ)))
    (handlers : Handlers (StateM σ)) :
    dismissAll before.reverse handlers =
      Demand.makeAll (before ++ after) (Demand.downFrom before.length) handlers := by
  induction before using List.reverseRecOn generalizing after handlers with
  | nil => rfl
  | append_singleton before p ih =>
    have hall : before ++ [p] ++ after = before ++ p :: after := by simp
    have hdown : Demand.downFrom (before ++ [p]).length =
        .unregister before.length :: .stop before.length :: Demand.downFrom before.length := by
      simp [Demand.downFrom]
    rw [hall, hdown, Demand.makeAll_cons rfl, List.reverse_append]
    change (p.stop >>= fun _ => dismissAll before.reverse (handlers.uninstall p.names)) =
      Demand.makeAll (before ++ p :: after)
        (.stop before.length :: Demand.downFrom before.length) (handlers.uninstall p.names)
    rw [Demand.makeAll_cons rfl, ih]
    rfl

private theorem dismissAll_handlers (ps : List (Provider (StateM σ)))
    (handlers : Handlers (StateM σ)) (world : σ) :
    ((dismissAll ps handlers).run world).1 = handlers.uninstall (ps.flatMap Provider.names) := by
  induction ps generalizing handlers world with
  | nil => rfl
  | cons p ps ih =>
    have huninstall : handlers.uninstall ((p :: ps).flatMap Provider.names) =
        (handlers.uninstall p.names).uninstall (ps.flatMap Provider.names) := by
      rw [List.flatMap_cons]
      exact List.foldl_append
    rw [huninstall]
    exact ih (handlers.uninstall p.names) (p.stop.run world).2

/-! ## Engaging -/

/-- Providers start, one after the other, and each registers its handlers when it has started. -/
inductive Starts : List (Provider (StateM σ)) → σ → σ → Prop
  | nil (world : σ) : Starts [] world world
  | cons {p : Provider (StateM σ)} {ps : List (Provider (StateM σ))} {world world' world'' : σ}
      (hstart : p.start.run world = (.ok (), world'))
      (hrest : Starts ps (p.handlers.run world').2 world'') : Starts (p :: ps) world world''

/-- All providers of a list start, or there is a first one that does not. -/
theorem starts_or_fails (ps : List (Provider (StateM σ))) (world : σ) :
    (∃ world', Starts ps world world') ∨
      ∃ before p after world' t world'', ps = before ++ p :: after ∧ Starts before world world' ∧
        p.start.run world' = (.error t, world'') := by
  induction ps generalizing world with
  | nil => exact .inl ⟨world, .nil world⟩
  | cons p ps ih =>
    rcases hstart : p.start.run world with ⟨_ | _, world'⟩
    · exact .inr ⟨[], p, ps, world, _, world', rfl, .nil world, hstart⟩
    · rcases ih (p.handlers.run world').2 with
        ⟨world'', hrest⟩ | ⟨before, q, after, _, t, _, rfl, hbefore, hfail⟩
      · exact .inl ⟨world'', .cons hstart hrest⟩
      · exact .inr ⟨p :: before, q, after, _, t, _, rfl, .cons hstart hbefore, hfail⟩

/-- A provider registers no handler under a name that it does not list. -/
def KeepsToNames (p : Provider (StateM σ)) : Prop :=
  ∀ world, ∀ entry ∈ (p.handlers.run world).1, entry.1 ∈ p.names

private theorem KeepsToNames.find?_install {p : Provider (StateM σ)} (h : p.KeepsToNames)
    (handlers : Handlers (StateM σ)) (world : σ) {name : String} (hname : name ∉ p.names) :
    (handlers.install (p.handlers.run world).1).find? name = handlers.find? name := by
  have hnone : (Dict.ofList (p.handlers.run world).1).find? name = none := by
    rw [Dict.find?_ofList_eq_none_iff]
    intro hmem
    obtain ⟨entry, hentry, rfl⟩ := List.mem_map.1 hmem
    exact hname (h world entry hentry)
  rw [Handlers.find?_install, hnone, Option.none_or]

namespace Starts

variable {before : List (Provider (StateM σ))} {world world' : σ}

private theorem run_engageAll (h : Starts before world world')
    (engaged after : List (Provider (StateM σ))) (handlers : Handlers (StateM σ)) :
    ∃ handlers', (Demand.makeAll (engaged ++ before ++ after)
          (Demand.upFrom engaged.length before.length) handlers).run world = (handlers', world') ∧
      (engageAll (before ++ after) engaged.reverse handlers).run world =
        (engageAll after (engaged ++ before).reverse handlers').run world' ∧
      ((∀ p ∈ before, p.KeepsToNames) → ∀ name, (∀ p ∈ before, name ∉ p.names) →
        handlers'.find? name = handlers.find? name) := by
  -- By induction on the providers that start; those engaged before them give their slots.
  induction h generalizing engaged handlers with
  | nil world =>
    refine ⟨handlers, rfl, ?_, fun _ _ _ => rfl⟩
    rw [List.append_nil, List.nil_append]
  | @cons p ps world₀ world₁ world₂ hstart _ ih =>
    obtain ⟨handlers', hdemands, hrun, hfind⟩ :=
      ih (engaged ++ [p]) (handlers.install (p.handlers.run world₁).1)
    have hall : engaged ++ p :: ps ++ after = engaged ++ p :: (ps ++ after) := by simp
    have hall' : engaged ++ [p] ++ ps ++ after = engaged ++ p :: (ps ++ after) := by simp
    have hengaged : engaged ++ p :: ps = engaged ++ [p] ++ ps := by simp
    have hlength : (engaged ++ [p]).length = engaged.length + 1 := by simp
    refine ⟨handlers', ?_, ?_, ?_⟩
    · rw [hall', hlength] at hdemands
      rw [hall, List.length_cons, Demand.upFrom, Demand.makeAll_cons rfl]
      have hmade : ((Demand.start engaged.length).make p handlers).run world₀ =
          (handlers, world₁) := run_bind_of hstart
      rw [run_bind_of hmade, Demand.makeAll_cons rfl]
      exact (run_bind_of rfl).trans hdemands
    · have hengage : (p.engage handlers).run world₀ =
          (.ok (handlers.install (p.handlers.run world₁).1), (p.handlers.run world₁).2) :=
        run_bind_of hstart
      rw [hengaged, ← hrun, List.reverse_append]
      exact run_bind_of hengage
    · intro hkeeps name hnone
      rw [hfind (fun q hq => hkeeps q (List.mem_cons_of_mem _ hq)) name
        fun q hq => hnone q (List.mem_cons_of_mem _ hq)]
      exact (hkeeps p List.mem_cons_self).find?_install handlers world₁ (hnone p List.mem_cons_self)

end Starts

end Provider

/-! ## Sessions -/

namespace Session

private theorem run_start_of_error {s : Session (StateM σ)}
    {before after : List (Provider (StateM σ))}
    {p : Provider (StateM σ)} {world world' world'' : σ} {t : Trouble} (hidle : s.started = false)
    (hslots : s.providers = before ++ p :: after) (hbefore : Provider.Starts before world world')
    (hfail : p.start.run world' = (.error t, world'')) :
    ∃ handlers last,
      s.start.run world = ((.error (.provider t.chain), s.withHandlers handlers), last) ∧
      (Demand.makeAll s.providers (Demand.failingAt before.length) s.handlers).run world =
        (handlers, last) ∧
      ((∀ q ∈ before, q.KeepsToNames) →
        handlers = s.handlers.uninstall (before.flatMap Provider.names)) := by
  obtain ⟨engaged, hup, hengaged, hfind⟩ := hbefore.run_engageAll [] (p :: after) s.handlers
  rw [List.nil_append, List.length_nil] at hup
  rw [List.nil_append, List.reverse_nil] at hengaged
  rcases hdown : (Provider.dismissAll before.reverse engaged).run world'' with ⟨handlers, last⟩
  refine ⟨handlers, last, ?_, ?_, fun hkeeps => ?_⟩
  · have hengage : (p.engage engaged).run world' = (.error (.provider t.chain), world'') :=
      run_bind_of hfail
    have hall : (Provider.engageAll s.providers [] s.handlers).run world =
        ((.error (.provider t.chain), handlers), last) := by
      rw [hslots, hengaged]
      exact (run_bind_of hengage).trans (run_bind_of hdown)
    unfold Session.start
    rw [hidle]
    exact run_bind_of hall
  · have hstart : (Demand.make p engaged (.start before.length)).run world' =
        (engaged, world'') := run_bind_of hfail
    rw [hslots, Demand.failingAt, Demand.makeAll_append, run_bind_of hup, Demand.makeAll_cons rfl,
      run_bind_of hstart, ← Provider.dismissAll_reverse]
    exact hdown
  · have hdismissed := Provider.dismissAll_handlers before.reverse engaged world''
    rw [hdown] at hdismissed
    refine hdismissed.trans ?_
    refine Dict.ext_find? fun name => ?_
    rw [Handlers.find?_uninstall, Handlers.find?_uninstall]
    by_cases hlisted : ∃ q ∈ before, name ∈ q.names
    · rw [if_pos (by simpa using hlisted), if_pos (by simpa using hlisted)]
    · rw [if_neg (by simpa using hlisted), if_neg (by simpa using hlisted)]
      exact hfind hkeeps name fun q hq hname => hlisted ⟨q, hq, hname⟩

private theorem run_add_of_error {s : Session (StateM σ)} {p : Provider (StateM σ)}
    {world world' : σ}
    {t : Trouble} (hstarted : s.started = true) (hfail : p.start.run world = (.error t, world')) :
    (s.add p).run world = ((.error (.provider t.chain), s), world') := by
  have hengage : (p.engage s.handlers).run world = (.error (.provider t.chain), world') :=
    run_bind_of hfail
  unfold Session.add
  rw [hstarted]
  exact run_bind_of hengage

/-- A session whose first provider that does not start stands in a slot tells the trouble of that
provider. It has made the demands of such a start, and no others; what they leave of the handlers is
all that is different about it, and those are the handlers of before without the names of the
providers that had started. To add a provider that does not start leaves a started session as it
was. -/
theorem failed_start_undone :
    (∀ (s : Session (StateM σ)) (before after : List (Provider (StateM σ)))
      (p : Provider (StateM σ)) (world world' world'' : σ) (t : Trouble), s.started = false →
      s.providers = before ++ p :: after → Provider.Starts before world world' →
      p.start.run world' = (.error t, world'') →
      ∃ handlers last,
        s.start.run world = ((.error (.provider t.chain), s.withHandlers handlers), last) ∧
        (Demand.makeAll s.providers (Demand.failingAt before.length) s.handlers).run world =
          (handlers, last) ∧
        ((∀ q ∈ before, q.KeepsToNames) →
          handlers = s.handlers.uninstall (before.flatMap Provider.names))) ∧
    ∀ (s : Session (StateM σ)) (p : Provider (StateM σ)) (world world' : σ) (t : Trouble),
      s.started = true → p.start.run world = (.error t, world') →
      (s.add p).run world = ((.error (.provider t.chain), s), world') :=
  ⟨fun _ _ _ _ _ _ _ _ hidle hslots hbefore hfail =>
      run_start_of_error hidle hslots hbefore hfail,
    fun _ _ _ _ _ hstarted hfail => run_add_of_error hstarted hfail⟩

end Session

/-! ## A third provider that fails -/

def Provider.telling (slot : Nat) (names : List String) (result : Except Trouble Unit) :
    Provider (StateM (List Demand)) where
  names := names
  start := fun demands => (result, demands ++ [.start slot])
  stop := fun demands => ((), demands ++ [.stop slot])
  handlers := fun demands =>
    (names.map fun name => (name, fun _ _ => return .finished .ok), demands ++ [.register slot])

private theorem Provider.keepsToNames_telling (slot : Nat) (names : List String)
    (result : Except Trouble Unit) : (telling slot names result).KeepsToNames := by
  intro demands entry hentry
  obtain ⟨name, hname, rfl⟩ := List.mem_map.1 hentry
  exact hname

def unreachable : Provider (StateM (List Demand)) :=
  .telling 2 ["query"] (.error (.of "no backend"))

/-- A session over two providers that share a name, one that fails and one more. Two handlers are
registered before it starts. -/
def fragile : Session (StateM (List Demand)) where
  settings := Settings.default
  interpreter :=
    ⟨⟨[], [], []⟩,
      .ofList
        [("note", fun _ _ => return .finished .ok), ("open", fun _ _ => return .finished .ok)],
      ⟨fun _ _ => return .ok none⟩, 0⟩
  gathered := .ofList [("user", "ada")]
  providers := [.telling 0 ["open", "close"] (.ok ()), .telling 1 ["close"] (.ok ()), unreachable,
    .telling 3 ["note"] (.ok ())]
  started := false

theorem Session.fragile_start_undone :
    (∃ s, fragile.start.run [] = ((.error (.provider "no backend"), s),
        [.start 0, .register 0, .start 1, .register 1, .start 2, .stop 1, .stop 0]) ∧
      s.handlers.keys = ["note"] ∧ s.gathered = fragile.gathered ∧ s.started = false) ∧
    (add { fragile with started := true } unreachable).run [] =
      ((.error (.provider "no backend"), { fragile with started := true }), [.start 2]) := by
  constructor
  · obtain ⟨handlers, last, hrun, hdemands, hhandlers⟩ :=
      (@failed_start_undone (List Demand)).1 fragile
        [.telling 0 ["open", "close"] (.ok ()), .telling 1 ["close"] (.ok ())]
        [.telling 3 ["note"] (.ok ())] unreachable [] _ _ (.of "no backend") rfl rfl
        (.cons rfl (.cons rfl (.nil _))) rfl
    have hkept := hhandlers (by simp [Provider.keepsToNames_telling])
    obtain rfl := (congrArg Prod.snd hdemands).symm
    refine ⟨_, hrun, ?_, rfl, rfl⟩
    change handlers.keys = ["note"]
    rw [hkept]
    decide +kernel
  · exact (@failed_start_undone (List Demand)).2 { fragile with started := true } unreachable []
      _ (.of "no backend") rfl rfl

end StepScript
