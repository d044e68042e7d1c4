import StepScript.Proofs.CourseEnd

/-!
Which arguments an action is filled in with. The actions of a concept have the values of its
placeholders and no others, so that what the caller has matters only by the text it makes; and
behind a concept its caller has the same arguments as before.
-/

set_option autoImplicit false
set_option relaxedAutoImplicit false

namespace StepScript

variable {σ : Type}

/-! ## What comes before a turn -/

private def Turn.Each (P : List Turn → Turn → Prop) (turns : List Turn) : Prop :=
  ∀ before t after, turns = before ++ t :: after → P before t

namespace Turn.Each

variable {P Q : List Turn → Turn → Prop} {turns turns' : List Turn}

private theorem nil : Each P [] := by
  intro before t after hturns
  simp at hturns

private theorem append (h : Each P turns)
    (h' : Each (fun before t => P (turns ++ before) t) turns') :
    Each P (turns ++ turns') := by
  intro before t after hturns
  rcases List.append_eq_append_iff.1 hturns with ⟨rest, rfl, hrest⟩ | ⟨rest, hsplit, hrest⟩
  · exact h' rest t after hrest
  · cases rest with
    | nil =>
      obtain rfl : turns = before := by simpa using hsplit
      simpa using h' [] t after (by simpa using hrest.symm)
    | cons t' rest =>
      obtain ⟨rfl, rfl⟩ : t = t' ∧ after = rest ++ turns' := by simpa using hrest
      exact h before t rest hsplit

private theorem single {t : Turn} (h : P [] t) : Each P [t] := by
  intro before t' after hturns
  rcases List.singleton_eq_append_iff.1 hturns with ⟨rfl, hrest⟩ | ⟨_, hrest⟩
  · obtain ⟨rfl, _⟩ : t' = t ∧ after = [] := by simpa using hrest
    exact h
  · cases hrest

private theorem cons {t : Turn} (h : P [] t)
    (h' : Each (fun before t' => P (t :: before) t') turns) :
    Each P (t :: turns) :=
  append (single h) h'

private theorem mono (h : Each P turns) (hPQ : ∀ before t, P before t → Q before t) :
    Each Q turns :=
  fun before t after hturns => hPQ before t (h before t after hturns)

end Turn.Each

namespace Course

variable {i : Interpreter (StateM σ)} {depth : Nat} {args : Bindings} {actions : List Action}
  {s s' : Moment σ} {turns : List Turn} {stop : Stop}

private theorem gathers_before (h : Course i depth args actions s turns stop s') :
    Turn.Each (fun before t => t.gathered = gatheredBy s.gathered (Turn.events before)) turns := by
  induction h with
  | done => exact .nil
  | next hfirst _ ih ih' =>
    refine .append ih (ih'.mono fun before t ht => ?_)
    rw [ht, Turn.events_append, gatheredBy_append, hfirst.gathers]
  | halted _ _ ih => exact ih
  | called _ _ _ => exact .single rfl
  | failed _ _ => exact .single rfl
  | opened _ hfound _ _ _ ih =>
    refine .cons rfl (ih.mono fun before t ht => ?_)
    rw [ht, Turn.events_cons, gatheredBy_append, Turn.gatheredBy_event_of_found hfound]
  | cutOff _ _ _ => exact .single rfl

private theorem le_depth (h : Course i depth args actions s turns stop s') :
    ∀ t ∈ turns, depth ≤ t.depth := by
  induction h with
  | done => exact fun _ ht => nomatch ht
  | next _ _ ih ih' => exact List.forall_mem_append.2 ⟨ih, ih'⟩
  | halted _ _ ih => exact ih
  | called _ _ _ => exact List.forall_mem_singleton.2 (Nat.le_refl _)
  | failed _ _ => exact List.forall_mem_singleton.2 (Nat.le_refl _)
  | opened _ _ _ _ _ ih =>
    refine List.forall_mem_cons.2 ⟨Nat.le_refl _, fun t ht => ?_⟩
    exact Nat.le_of_succ_le (ih t ht)
  | cutOff _ _ _ => exact List.forall_mem_singleton.2 (Nat.le_refl _)

end Course

/-! ## Scopes -/

/-- A turn has the arguments of its caller, or it belongs to a concept that was opened before it and
is not over: then its arguments are what the placeholders stand for. -/
def Turn.Scoped (depth : Nat) (args : Bindings) (before : List Turn) (t : Turn) : Prop :=
  t.depth = depth ∧ t.args = args ∨
    ∃ front opener inside found, before = front ++ opener :: inside ∧ depth ≤ opener.depth ∧
      t.depth = opener.depth + 1 ∧ (∀ t' ∈ inside, opener.depth < t'.depth) ∧
      opener.found? = some found ∧ t.args = found.captures

namespace Turn.Scoped

variable {depth : Nat} {args : Bindings} {before : List Turn} {t : Turn}

private theorem prepend (h : Scoped depth args before t) (turns : List Turn) :
    Scoped depth args (turns ++ before) t := by
  rcases h with h | ⟨front, opener, inside, found, rfl, h⟩
  · exact .inl h
  · exact .inr ⟨turns ++ front, opener, inside, found, (List.append_assoc ..).symm, h⟩

private theorem close {opener : Turn} {found : Match} (hfound : opener.found? = some found)
    (hinside : ∀ t' ∈ before, opener.depth < t'.depth)
    (h : Scoped (opener.depth + 1) found.captures before t) :
    Scoped opener.depth opener.args (opener :: before) t := by
  rcases h with ⟨hdepth, hargs⟩ | ⟨front, opener', inside, found', rfl, hle, h⟩
  · exact .inr ⟨[], opener, before, found, rfl, Nat.le_refl _, hdepth, hinside, hfound, hargs⟩
  · exact .inr ⟨opener :: front, opener', inside, found', rfl, Nat.le_of_succ_le hle, h⟩

end Turn.Scoped

namespace Course

variable {i : Interpreter (StateM σ)} {depth : Nat} {args : Bindings} {actions : List Action}
  {s s' : Moment σ} {turns : List Turn} {stop : Stop}

private theorem turns_scoped (h : Course i depth args actions s turns stop s') :
    Turn.Each (Turn.Scoped depth args) turns := by
  induction h with
  | done => exact .nil
  | next _ _ ih ih' => exact .append ih (ih'.mono fun before t ht => ht.prepend _)
  | halted _ _ ih => exact ih
  | called _ _ _ => exact .single (.inl ⟨rfl, rfl⟩)
  | failed _ _ => exact .single (.inl ⟨rfl, rfl⟩)
  | @opened opener _ _ _ _ _ _ _ _ hfound _ _ hinside ih =>
    have hdepth := hinside.le_depth
    -- The concept is not over as long as the turns are deeper than the one that opens it.
    refine .cons (.inl ⟨rfl, rfl⟩) fun before t after hturns => ?_
    have hbefore : ∀ t' ∈ before, opener.depth < t'.depth := by
      intro t' ht'
      exact hdepth t' (by simp [hturns, ht'])
    exact .close hfound hbefore (ih before t after hturns)
  | cutOff _ _ _ => exact .single (.inl ⟨rfl, rfl⟩)

/-- The actions whose turns came, without those of concepts. -/
def own (depth : Nat) (turns : List Turn) : List Action :=
  (turns.filter fun t => t.depth == depth).map Turn.action

private theorem own_append (depth : Nat) (turns turns' : List Turn) :
    own depth (turns ++ turns') = own depth turns ++ own depth turns' := by
  simp [own]

private theorem own_cons_self (t : Turn) (turns : List Turn) :
    own t.depth (t :: turns) = t.action :: own t.depth turns := by
  simp [own]

private theorem own_eq_nil (h : ∀ t ∈ turns, depth < t.depth) : own depth turns = [] := by
  have hnone : (turns.filter fun t => t.depth == depth) = [] := by
    rw [List.filter_eq_nil_iff]
    intro t ht
    have hlt := h t ht
    simp only [beq_iff_eq]
    omega
  rw [own, hnone, List.map_nil]

private theorem own_of_opened {t : Turn} (h : ∀ t' ∈ turns, t.depth < t'.depth) :
    own t.depth (t :: turns) = [t.action] := by
  rw [own_cons_self, own_eq_nil h]

private theorem own_single (t : Turn) : own t.depth [t] = [t.action] :=
  own_of_opened fun _ ht => nomatch ht

private theorem own_turns (h : Course i depth args actions s turns stop s') :
    own depth turns <+: actions ∧ (stop = .completed → own depth turns = actions) := by
  induction h with
  | done => exact ⟨List.prefix_rfl, fun _ => rfl⟩
  | @next _ _ a rest _ _ _ _ _ _ _ _ ih ih' =>
    rw [own_append, ih.2 rfl]
    refine ⟨List.prefix_append_right_inj [a] |>.2 ih'.1, fun hstop => ?_⟩
    rw [ih'.2 hstop, List.singleton_append]
  | @halted _ _ a rest _ _ _ _ _ hstop ih =>
    exact ⟨ih.1.trans (List.prefix_append [a] rest), fun h => absurd h hstop⟩
  | @called t _ _ _ _ _ _ => simp [own_single t]
  | @failed t _ _ _ _ _ => simp [own_single t]
  | opened _ _ _ _ hinside _ => simp [own_of_opened hinside.le_depth]
  | @cutOff t _ _ _ _ _ _ => simp [own_single t]

end Course

namespace Interpreter

private theorem runAction_eq_of_text {m : Type → Type} [Monad m] (i : Interpreter m) {a a' : Action}
    {args args' gathered : Bindings} (hname : a.name = a'.name)
    (hhandler : i.handlers.contains a.name = false)
    (htext : Template.fill args gathered a.text = Template.fill args' gathered a'.text)
    (room : Nat) : i.runAction room args a gathered = i.runAction room args' a' gathered := by
  have hhandler' : i.handlers.contains a'.name = false := hname ▸ hhandler
  unfold runAction
  simp only [hhandler', hname, htext, Bool.false_eq_true, if_false]

theorem not_contains_recorded {i : Interpreter (StateM σ)} {name : String}
    (h : i.handlers.contains name = false) : i.recorded.handlers.contains name = false := by
  rw [recorded, Handlers.contains_recorded, h]

/-- What an action without a handler does depends on its name and its text as it is filled in, and
on nothing else that its caller has. And the actions of every run have their turns in order, filled
in with the arguments of the run and with what is gathered by then, while those of a concept that is
opened in between have what its placeholders stand for in place of these arguments. -/
theorem captures_scoped (i : Interpreter (StateM σ)) :
    (∀ (a a' : Action) (args args' gathered : Bindings), a.name = a'.name →
      i.handlers.contains a.name = false → (i.script.concept? a.name).isSome = true →
      Template.fill args gathered a.text = Template.fill args' gathered a'.text →
      ∀ room, i.runAction room args a gathered = i.runAction room args' a' gathered ∧
        ∀ world, (i.recorded.runAction room args a gathered).run ⟨[], world⟩ =
          (i.recorded.runAction room args' a' gathered).run ⟨[], world⟩) ∧
    ∀ (actions : List Action) (args gathered : Bindings) (world : σ),
      ∃ turns stop gathered' world',
        Course i 0 args actions ⟨gathered, world⟩ turns stop ⟨gathered', world'⟩ ∧
        (i.runActions actions args gathered).run world = ((stop.result, gathered'), world') ∧
        (i.recorded.runActions actions args gathered).run ⟨[], world⟩ =
          ((stop.result, gathered'), ⟨Turn.events turns, world'⟩) ∧
        Course.own 0 turns <+: actions ∧ (stop = .completed → Course.own 0 turns = actions) ∧
        ∀ before t after, turns = before ++ t :: after → Turn.Scoped 0 args before t ∧
          t.gathered = gatheredBy gathered (Turn.events before) := by
  refine ⟨?_, ?_⟩
  · intro a a' args args' gathered hname hhandler _ htext room
    refine ⟨i.runAction_eq_of_text hname hhandler htext room, fun world => ?_⟩
    rw [i.recorded.runAction_eq_of_text hname (not_contains_recorded hhandler) htext room]
  · intro actions args gathered world
    obtain ⟨turns, stop, gathered', world', hcourse, hrun, hrecorded⟩ :=
      Course.of_runActions i actions args gathered world
    obtain ⟨hfirst, hall⟩ := hcourse.own_turns
    refine ⟨turns, stop, gathered', world', hcourse, hrun, hrecorded, hfirst, hall, ?_⟩
    intro before t after hturns
    exact ⟨hcourse.turns_scoped before t after hturns,
      hcourse.gathers_before before t after hturns⟩

def typist : Interpreter (StateM Unit) where
  script := ⟨[], [⟨"login", [⟨"as [[user]]", [⟨"type", "[[user]]", none⟩]⟩]⟩], []⟩
  handlers := Dict.ofList [("type", fun _ _ => return .finished .ok)]
  matcher := ⟨fun _ text => return .ok (some ⟨"as [[user]]", Dict.ofList [("user", text)]⟩)⟩
  nesting := 1

theorem captures_scoped_typist :
    let args := Dict.ofList [("who", "ann")]
    let args' := Dict.ofList [("name", "ann"), ("role", "guest")]
    typist.handlers.contains "login" = false ∧
      (typist.script.concept? "login").isSome = true ∧
      Template.fill args Dict.empty "[[who]]" = Template.fill args' Dict.empty "[[name]]" ∧
      (typist.recorded.runAction 1 args ⟨"login", "[[who]]", none⟩ Dict.empty).run ⟨[], ()⟩ =
        (typist.recorded.runAction 1 args' ⟨"login", "[[name]]", some "[[role]]"⟩ Dict.empty).run
          ⟨[], ()⟩ := by
  intro args args'
  have hhandler : typist.handlers.contains "login" = false := by decide +kernel
  have hconcept : (typist.script.concept? "login").isSome = true := by decide +kernel
  have htext : Template.fill args Dict.empty "[[who]]" =
      Template.fill args' Dict.empty "[[name]]" := by decide +kernel
  have hscoped := (captures_scoped typist).1 ⟨"login", "[[who]]", none⟩
    ⟨"login", "[[name]]", some "[[role]]"⟩ args args' Dict.empty rfl hhandler hconcept htext 1
  exact ⟨hhandler, hconcept, htext, hscoped.2 ()⟩

end Interpreter
end StepScript
