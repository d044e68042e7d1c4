import StepScript.Proofs.Along
import StepScript.Proofs.CacheStore
import StepScript.Proofs.JsonRecord

/-!
What a matcher that remembers keeps of the answers of another one. A notebook takes down which
questions the other matcher is asked. An answer with a match is remembered as soon as it is given,
before the interpreter looks whether the match is one of the patterns at all; an answer without a
match is not remembered, and the question is asked again.
-/

set_option autoImplicit false
set_option relaxedAutoImplicit false

namespace StepScript

open FileTree

structure Question where
  patterns : List String
  text : String
  answer : Except Failure (Option Match)

structure Notebook (σ : Type) where
  asked : List Question
  other : σ

namespace Desk

variable {σ α β : Type}

def note (d : Desk (Notebook σ)) (q : Question) : Desk (Notebook σ) :=
  { d with rest := { d.rest with asked := d.rest.asked ++ [q] } }

def Calm (dir : Path) (x : StateM (Desk (Notebook σ)) α) : Prop :=
  ∀ d, Yields x d fun _ d' => Spares dir d.files d'.files ∧ d'.rest.asked = d.rest.asked

/-- A match is remembered under a key: its entry is there and can be read. -/
def Remembers {ρ : Type} (d : Desk ρ) (dir : Path) (key : String) (found : Match) : Prop :=
  ∃ bytes, d.files.Has dir (Cache.fileName key) bytes ∧ Json.decodeBytes? bytes = some found

end Desk

namespace Matcher

variable {σ : Type}

def noting (raw : Matcher (StateM (Desk (Notebook σ)))) : Matcher (StateM (Desk (Notebook σ))) where
  find patterns text d :=
    (((raw.find patterns text).run d).1,
      ((raw.find patterns text).run d).2.note ⟨patterns, text, ((raw.find patterns text).run d).1⟩)

end Matcher

namespace Desk

variable {σ : Type} {dir : Path}

/-- How a lookup ends: with a match that is remembered, or with the answer to a question, which is
then written or not. -/
inductive Looked (d : Desk (Notebook σ)) (dir : Path) (patterns : List String) (text : String)
    (reply : Except Failure (Option Match)) (writes : Match → Prop) :
    Except Failure (Option Match) → Desk (Notebook σ) → Prop
  | recalled {found : Match} :
      d.Remembers dir (Matcher.key patterns text) found →
      Looked d dir patterns text reply writes (.ok (some found)) d
  | stored {found : Match} {between : FileTree} {d' : Desk (Notebook σ)} :
      (∀ other, ¬ d.Remembers dir (Matcher.key patterns text) other) →
      d'.rest.asked = d.rest.asked ++ [⟨patterns, text, reply⟩] →
      reply = .ok (some found) → writes found → Spares dir d.files between →
      between.Alters dir (Cache.fileName (Matcher.key patterns text))
        (some (Json.Codec.encode found).indented.toUTF8) d'.files →
      Looked d dir patterns text reply writes reply d'
  | passed {d' : Desk (Notebook σ)} :
      (∀ other, ¬ d.Remembers dir (Matcher.key patterns text) other) →
      d'.rest.asked = d.rest.asked ++ [⟨patterns, text, reply⟩] →
      (∀ found, reply = .ok (some found) → ¬ writes found) → Spares dir d.files d'.files →
      Looked d dir patterns text reply writes reply d'

variable {raw : Matcher (StateM (Desk (Notebook σ)))} {cache : Cache} {scope : String}

private theorem Steady.clean {d : Desk (Notebook σ)} (h : d.files.Steady dir) : d.Clean dir :=
  Tidy.mono h fun _ _ _ _ => trivial

private theorem yields_remembered {d : Desk (Notebook σ)} {key : String}
    (hclean : d.Clean (cache.directory scope)) :
    Yields (Matcher.remembered cache access scope key) d fun r d' =>
      d' = d ∧ ∀ found, r = some found ↔ d.Remembers (cache.directory scope) key found := by
  unfold Matcher.remembered
  refine (yields_read? hclean).bind ?_
  intro r _ hpost
  obtain ⟨rfl, hvalue⟩ := hpost
  cases r with
  | error e =>
    refine yields_pure ⟨rfl, fun found => ?_⟩
    have hnone := hvalue found
    simpa [Remembers] using hnone
  | ok found? =>
    refine yields_pure ⟨rfl, fun found => ?_⟩
    have hfound := hvalue found
    simpa [Remembers] using hfound

private theorem yields_question {d : Desk (Notebook σ)} (patterns : List String) (text : String)
    (hraw : Calm dir (raw.find patterns text)) :
    Yields (raw.noting.find patterns text) d fun answer d' =>
      Spares dir d.files d'.files ∧
        d'.rest.asked = d.rest.asked ++ [⟨patterns, text, answer⟩] := by
  obtain ⟨hspares, hasked⟩ := hraw d
  exact ⟨hspares, congrArg (· ++ [_]) hasked⟩

def Writes (raw : Matcher (StateM (Desk (Notebook σ)))) (cache : Cache) (scope : String)
    (patterns : List String) (text : String) (d : Desk (Notebook σ)) (found : Match) : Prop :=
  ((cache.write access scope (Matcher.key patterns text) found).run
    ((raw.noting.find patterns text).run d).2).1 = .ok ()

private theorem yields_find
    (hraw : ∀ patterns text, Calm (cache.directory scope) (raw.find patterns text))
    {d : Desk (Notebook σ)} (hsteady : d.files.Steady (cache.directory scope))
    (patterns : List String) (text : String) :
    Yields ((raw.noting.cached cache access scope).find patterns text) d
      (d.Looked (cache.directory scope) patterns text ((raw.noting.find patterns text).run d).1
        (Writes raw cache scope patterns text d)) := by
  unfold Matcher.cached
  refine (yields_remembered (Steady.clean hsteady)).bind ?_
  intro found? d' hpost
  obtain ⟨hd', hfound⟩ := hpost
  subst hd'
  cases found? with
  | some found => exact yields_pure (.recalled ((hfound found).1 rfl))
  | none =>
    have hnone : ∀ other, ¬ d'.Remembers (cache.directory scope) (Matcher.key patterns text) other :=
      fun other hother => nomatch (hfound other).2 hother
    refine ((yields_question patterns text (hraw patterns text)).and (yields_run _ d')).bind ?_
    intro answer d₁ hpost
    obtain ⟨⟨hspares, hasked⟩, hreply, hd₁⟩ := hpost
    unfold Writes
    rw [← hd₁, ← hreply]
    have hclean₁ := Steady.clean (hsteady.spares hspares)
    cases answer with
    | error f => exact yields_pure (.passed hnone hasked (fun _ h => nomatch h) hspares)
    | ok found? =>
      cases found? with
      | none => exact yields_pure (.passed hnone hasked (fun _ h => nomatch h) hspares)
      | some found =>
        simp only [Matcher.remember, bind_assoc, pure_bind]
        refine ((yields_write hclean₁ found).and (yields_run _ d₁)).bind ?_
        intro r d₂ hpost
        obtain ⟨⟨hrest, hdone⟩, hr, -⟩ := hpost
        rw [← hrest] at hasked
        refine yields_pure ?_
        rcases hdone with ⟨between, hok, hquiet, hput⟩ | ⟨⟨e, herror⟩, hquiet⟩
        · exact .stored hnone hasked rfl (hr ▸ hok) (hspares.trans hquiet.spares) hput
        · refine .passed hnone hasked ?_ (hspares.trans hquiet.spares)
          rintro _ ⟨⟩
          rw [← hr, herror]
          nofun

private theorem remembers_iff_of_has_iff {d d' : Desk (Notebook σ)} {key : String}
    (h : ∀ bytes, d'.files.Has dir (Cache.fileName key) bytes ↔
      d.files.Has dir (Cache.fileName key) bytes) (found : Match) :
    d'.Remembers dir key found ↔ d.Remembers dir key found :=
  exists_congr fun bytes => and_congr_left' (h bytes)

namespace Looked

variable {d d' : Desk (Notebook σ)} {patterns : List String} {text : String}
  {reply answer : Except Failure (Option Match)} {writes : Match → Prop}

private theorem steady (h : d.Looked dir patterns text reply writes answer d')
    (hsteady : d.files.Steady dir) : d'.files.Steady dir := by
  cases h with
  | recalled _ => exact hsteady
  | stored _ _ _ _ hspares hput => exact (hsteady.spares hspares).alters hput
  | passed _ _ _ hspares => exact hsteady.spares hspares

private theorem asked (h : d.Looked dir patterns text reply writes answer d') :
    (∃ found, d.Remembers dir (Matcher.key patterns text) found) ∧
        d'.rest.asked = d.rest.asked ∨
      (∀ found, ¬ d.Remembers dir (Matcher.key patterns text) found) ∧ answer = reply ∧
        d'.rest.asked = d.rest.asked ++ [⟨patterns, text, reply⟩] := by
  cases h with
  | recalled hfound => exact .inl ⟨⟨_, hfound⟩, rfl⟩
  | stored hnone hasked => exact .inr ⟨hnone, rfl, hasked⟩
  | passed hnone hasked => exact .inr ⟨hnone, rfl, hasked⟩

private theorem remembers_iff (h : d.Looked dir patterns text reply writes answer d')
    (hsteady : d.files.Steady dir) {key : String}
    (hkey : Cache.fileName (Matcher.key patterns text) = Cache.fileName key →
      d'.rest.asked = d.rest.asked ++ [⟨patterns, text, reply⟩] →
        ∀ found, reply ≠ .ok (some found)) (found : Match) :
    d'.Remembers dir key found ↔ d.Remembers dir key found := by
  refine remembers_iff_of_has_iff (fun bytes => ?_) found
  cases h with
  | recalled _ => exact Iff.rfl
  | passed _ _ _ hspares => exact hsteady.has_iff hspares
  | stored _ hasked hreply _ hspares hput =>
    have hne : Cache.fileName key ≠ Cache.fileName (Matcher.key patterns text) :=
      fun hsame => hkey hsame.symm hasked _ hreply
    exact (hput.has_iff_of_ne hne).trans (hsteady.has_iff hspares)

private theorem remembers_same_iff (h : d.Looked dir patterns text reply writes answer d')
    (hsteady : d.files.Steady dir)
    (hnone : ∀ found, ¬ d.Remembers dir (Matcher.key patterns text) found) (found : Match) :
    d'.Remembers dir (Matcher.key patterns text) found ↔
      reply = .ok (some found) ∧ writes found := by
  cases h with
  | recalled hfound => exact absurd hfound (hnone _)
  | passed _ _ hwrites hspares =>
    rw [remembers_iff_of_has_iff fun bytes => hsteady.has_iff hspares]
    constructor
    · exact fun hfound => absurd hfound (hnone found)
    · exact fun hboth => absurd hboth.2 (hwrites found hboth.1)
  | @stored other between _ _ _ hreply hwrites hspares hput =>
    have hback : Json.decodeBytes? (Json.Codec.encode other).indented.toUTF8 = some other :=
      Match.readsBack other
    constructor
    · rintro ⟨bytes, hhas, hdecode⟩
      obtain rfl := hhas.unique hput.has_same
      rw [hback] at hdecode
      cases hdecode
      exact ⟨hreply, hwrites⟩
    · rintro ⟨hsame, -⟩
      rw [hreply] at hsame
      cases hsame
      exact ⟨_, hput.has_same, hback⟩

end Looked

/-! ## Runs of the interpreter -/

/-- What comes about by lookups of a matcher, and by what leaves its directory alone. -/
inductive Reaches (finder : Matcher (StateM (Desk (Notebook σ)))) (dir : Path)
    (d : Desk (Notebook σ)) : Desk (Notebook σ) → Prop
  | refl : Reaches finder dir d d
  | lookup {d' : Desk (Notebook σ)} (patterns : List String) (text : String) :
      Reaches finder dir d d' → Reaches finder dir d ((finder.find patterns text).run d').2
  | calm {d' : Desk (Notebook σ)} {x : StateM (Desk (Notebook σ)) Ending} :
      Calm dir x → Reaches finder dir d d' → Reaches finder dir d (x.run d').2

private theorem Reaches.trans {finder : Matcher (StateM (Desk (Notebook σ)))}
    {d d' d'' : Desk (Notebook σ)} (h : Reaches finder dir d d')
    (h' : Reaches finder dir d' d'') : Reaches finder dir d d'' := by
  induction h' with
  | refl => exact h
  | lookup patterns text _ ih => exact .lookup patterns text ih
  | calm hcalm _ ih => exact .calm hcalm ih

private def Stays {α : Type} (finder : Matcher (StateM (Desk (Notebook σ)))) (dir : Path)
    (x : StateM (Desk (Notebook σ)) α) : Prop :=
  ∀ d, Reaches finder dir d (x.run d).2

end Desk

namespace Interpreter

open Desk

variable {σ : Type} {dir : Path} {i : Interpreter (StateM (Desk (Notebook σ)))}

def HasCalmHandlers (i : Interpreter (StateM (Desk (Notebook σ)))) (dir : Path) : Prop :=
  ∀ name handler, i.handlers.find? name = some handler → ∀ text arg, Calm dir (handler text arg)

private theorem HasCalmHandlers.keepsTo (h : i.HasCalmHandlers dir) :
    i.KeepsTo (Reaches i.matcher dir) where
  path := ⟨fun _ => .refl, .trans⟩
  find patterns text := fun _ => .lookup patterns text .refl
  call name handler hhandler text arg := fun _ => .calm (h name handler hhandler text arg) .refl

private theorem stays_runAction (h : i.HasCalmHandlers dir) (room : Nat) (args : Bindings)
    (action : Action) (gathered : Bindings) :
    Stays i.matcher dir (i.runAction room args action gathered) :=
  h.keepsTo.runAction room args action gathered

private theorem stays_runStep (h : i.HasCalmHandlers dir) (text : String) (gathered : Bindings) :
    Stays i.matcher dir (i.runStep text gathered) := h.keepsTo.runStep text gathered

private theorem stays_runBehavior (h : i.HasCalmHandlers dir) (concept text : String)
    (gathered : Bindings) : Stays i.matcher dir (i.runBehavior concept text gathered) :=
  h.keepsTo.runBehavior concept text gathered

private theorem stays_runHooks (h : i.HasCalmHandlers dir) (phase : Phase) (tags : List String)
    (gathered : Bindings) : Stays i.matcher dir (i.runHooks phase tags gathered) :=
  h.keepsTo.runHooks phase tags gathered

/-- What comes about by runs of an interpreter, one after the other, or by single actions of them. -/
inductive Runs (i : Interpreter (StateM (Desk (Notebook σ)))) (d : Desk (Notebook σ)) :
    Desk (Notebook σ) → Prop
  | refl : Runs i d d
  | step {d' : Desk (Notebook σ)} (text : String) (gathered : Bindings) :
      Runs i d d' → Runs i d ((i.runStep text gathered).run d').2
  | behavior {d' : Desk (Notebook σ)} (concept text : String) (gathered : Bindings) :
      Runs i d d' → Runs i d ((i.runBehavior concept text gathered).run d').2
  | hooks {d' : Desk (Notebook σ)} (phase : Phase) (tags : List String) (gathered : Bindings) :
      Runs i d d' → Runs i d ((i.runHooks phase tags gathered).run d').2
  | action {d' : Desk (Notebook σ)} (room : Nat) (args : Bindings) (action : Action)
      (gathered : Bindings) :
      Runs i d d' → Runs i d ((i.runAction room args action gathered).run d').2

private theorem Runs.reaches (h : i.HasCalmHandlers dir) {d d' : Desk (Notebook σ)}
    (hruns : i.Runs d d') :
    Reaches i.matcher dir d d' := by
  induction hruns with
  | refl => exact .refl
  | step text gathered _ ih => exact ih.trans (stays_runStep h text gathered _)
  | behavior concept text gathered _ ih =>
    exact ih.trans (stays_runBehavior h concept text gathered _)
  | hooks phase tags gathered _ ih => exact ih.trans (stays_runHooks h phase tags gathered _)
  | action room args action gathered _ ih =>
    exact ih.trans (stays_runAction h room args action gathered _)

end Interpreter

namespace Desk

variable {σ : Type} {raw : Matcher (StateM (Desk (Notebook σ)))} {cache : Cache} {scope : String}

private theorem Reaches.remembers_iff
    (hraw : ∀ patterns text, Calm (cache.directory scope) (raw.find patterns text))
    {d d' : Desk (Notebook σ)} (hsteady : d.files.Steady (cache.directory scope))
    (h : Reaches (raw.noting.cached cache access scope) (cache.directory scope) d d') :
    d'.files.Steady (cache.directory scope) ∧
      ∃ between, d'.rest.asked = d.rest.asked ++ between ∧
        ∀ key, (∀ q ∈ between,
            Cache.fileName (Matcher.key q.patterns q.text) = Cache.fileName key →
              ∀ found, q.answer ≠ .ok (some found)) →
          ∀ found, d'.Remembers (cache.directory scope) key found ↔
            d.Remembers (cache.directory scope) key found := by
  induction h with
  | refl => exact ⟨hsteady, [], by simp, fun _ _ _ => Iff.rfl⟩
  | @lookup d' patterns text _ ih =>
    obtain ⟨hsteady', between, hbetween, hsame⟩ := ih
    have hlooked := yields_find hraw hsteady' patterns text
    refine ⟨hlooked.steady hsteady', ?_⟩
    rcases hlooked.asked with ⟨-, hasked⟩ | ⟨-, -, hasked⟩
    · refine ⟨between, hasked.trans hbetween, fun key hkey found => ?_⟩
      refine (hlooked.remembers_iff hsteady' (fun _ hmore => ?_) found).trans (hsame key hkey found)
      rw [hasked] at hmore
      simp at hmore
    · refine ⟨between ++ [_], by rw [hasked, hbetween, List.append_assoc], fun key hkey found => ?_⟩
      have hbefore := hsame key (fun q hq => hkey q (List.mem_append_left _ hq)) found
      refine (hlooked.remembers_iff hsteady' (fun hname _ => ?_) found).trans hbefore
      exact hkey _ (List.mem_append_right _ (List.mem_singleton_self _)) hname
  | @calm d' x hcalm _ ih =>
    obtain ⟨hsteady', between, hbetween, hsame⟩ := ih
    obtain ⟨hspares, hasked⟩ := hcalm d'
    refine ⟨hsteady'.spares hspares, between, hasked.trans hbetween, fun key hkey found => ?_⟩
    exact (remembers_iff_of_has_iff (fun bytes => hsteady'.has_iff hspares) found).trans
      (hsame key hkey found)

end Desk

/-! ## Answers that are none of the patterns -/

namespace Interpreter

open Desk

variable {σ : Type} {i : Interpreter (StateM (Desk (Notebook σ)))}

private theorem yields_choose {patterns : List String} (hpatterns : patterns ≠ []) {text : String}
    {d : Desk (Notebook σ)} {q : Except Failure (Option Match) → Desk (Notebook σ) → Prop}
    (hfind : Yields (i.matcher.find patterns text) d q) :
    Yields (i.choose patterns text) d fun chosen d' => ∃ answer, q answer d' ∧
      (chosen = .ok none ↔
        answer = .ok none ∨ ∃ found, answer = .ok (some found) ∧ found.pattern ∉ patterns) := by
  have hsome : ¬ patterns.isEmpty = true := by simpa using hpatterns
  unfold choose
  rw [if_neg hsome]
  refine hfind.bind ?_
  intro answer d' hanswer
  cases answer with
  | error f => exact yields_pure ⟨_, hanswer, by simp⟩
  | ok found? =>
    cases found? with
    | none => exact yields_pure ⟨_, hanswer, by simp⟩
    | some found => exact yields_pure ⟨_, hanswer, by simp⟩

/-- The interpreter's choice for a text asks the other matcher. -/
def Asks (i : Interpreter (StateM (Desk (Notebook σ)))) (patterns : List String) (text : String)
    (d : Desk (Notebook σ)) : Prop :=
  ∃ answer, ((i.choose patterns text).run d).2.rest.asked =
    d.rest.asked ++ [⟨patterns, text, answer⟩]

variable {raw : Matcher (StateM (Desk (Notebook σ)))} {cache : Cache} {scope : String}

private theorem asks_iff (hmatcher : i.matcher = raw.noting.cached cache access scope)
    (hraw : ∀ patterns text, Calm (cache.directory scope) (raw.find patterns text))
    {d : Desk (Notebook σ)} (hsteady : d.files.Steady (cache.directory scope))
    {patterns : List String} (hpatterns : patterns ≠ []) (text : String) :
    i.Asks patterns text d ↔
      ∀ found, ¬ d.Remembers (cache.directory scope) (Matcher.key patterns text) found := by
  have hlooked := yields_find hraw hsteady patterns text
  rw [← hmatcher] at hlooked
  obtain ⟨answer, hlooked, -⟩ := yields_choose hpatterns hlooked
  unfold Asks
  rcases hlooked.asked with ⟨⟨found, hfound⟩, hasked⟩ | ⟨hnone, -, hasked⟩
  · constructor
    · rintro ⟨other, hother⟩
      rw [hasked] at hother
      simp at hother
    · exact fun hnone => absurd hfound (hnone found)
  · exact ⟨fun _ => hnone, fun _ => ⟨_, hasked⟩⟩

private theorem remembers_after_choose (hmatcher : i.matcher = raw.noting.cached cache access scope)
    (hraw : ∀ patterns text, Calm (cache.directory scope) (raw.find patterns text))
    {d : Desk (Notebook σ)} (hsteady : d.files.Steady (cache.directory scope))
    {patterns : List String} (hpatterns : patterns ≠ []) {text : String}
    (hasks : i.Asks patterns text d) {answer : Except Failure (Option Match)}
    (hanswer : ((raw.find patterns text).run d).1 = answer) :
    Yields (i.choose patterns text) d fun chosen d' =>
      d'.files.Steady (cache.directory scope) ∧
        d'.rest.asked = d.rest.asked ++ [⟨patterns, text, answer⟩] ∧
        (chosen = .ok none ↔
          answer = .ok none ∨ ∃ found, answer = .ok (some found) ∧ found.pattern ∉ patterns) ∧
        ∀ found, d'.Remembers (cache.directory scope) (Matcher.key patterns text) found ↔
          answer = .ok (some found) ∧ Writes raw cache scope patterns text d found := by
  have hunknown := (asks_iff hmatcher hraw hsteady hpatterns text).1 hasks
  have hlooked := yields_find hraw hsteady patterns text
  have hreply : ((raw.noting.find patterns text).run d).1 = answer := hanswer
  rw [← hmatcher, hreply] at hlooked
  refine (yields_choose hpatterns hlooked).mono ?_
  intro chosen d' hpost
  obtain ⟨answer', hlooked', hchosen⟩ := hpost
  rcases hlooked'.asked with ⟨⟨found, hfound⟩, -⟩ | ⟨-, rfl, hasked⟩
  · exact absurd hfound (hunknown found)
  · exact ⟨hlooked'.steady hsteady, hasked, hchosen, hlooked'.remembers_same_iff hsteady hunknown⟩

/-- A lookup that asks and chooses nothing leaves a match behind just when the answer was a match
with another pattern and could be written, and then the next lookup of the same does not ask. -/
theorem remembers_after_none_chosen (hmatcher : i.matcher = raw.noting.cached cache access scope)
    (hraw : ∀ patterns text, Calm (cache.directory scope) (raw.find patterns text))
    (hhandlers : i.HasCalmHandlers (cache.directory scope)) {d d' : Desk (Notebook σ)}
    (hsteady : d.files.Steady (cache.directory scope)) {patterns : List String}
    (hpatterns : patterns ≠ []) {text : String} (hasks : i.Asks patterns text d)
    {answer : Except Failure (Option Match)} (hanswer : ((raw.find patterns text).run d).1 = answer)
    (hnone : ((i.choose patterns text).run d).1 = .ok none)
    (hruns : i.Runs ((i.choose patterns text).run d).2 d') {between : List Question}
    (hbetween : d'.rest.asked = d.rest.asked ++ ⟨patterns, text, answer⟩ :: between)
    (hothers : ∀ q ∈ between, Cache.fileName (Matcher.key q.patterns q.text) =
      Cache.fileName (Matcher.key patterns text) → ∀ found, q.answer ≠ .ok (some found)) :
    (answer = .ok none ∨ ∃ found, answer = .ok (some found) ∧ found.pattern ∉ patterns) ∧
      (∀ found, d'.Remembers (cache.directory scope) (Matcher.key patterns text) found ↔
        answer = .ok (some found) ∧ Writes raw cache scope patterns text d found) ∧
      (i.Asks patterns text d' ↔
        ∀ found, answer = .ok (some found) → ¬ Writes raw cache scope patterns text d found) := by
  obtain ⟨hsteady₁, hasked₁, hchosen, hremembers₁⟩ :=
    remembers_after_choose hmatcher hraw hsteady hpatterns hasks hanswer
  have hreaches := hruns.reaches hhandlers
  rw [hmatcher] at hreaches
  obtain ⟨hsteady', more, hmore, hsame⟩ := hreaches.remembers_iff hraw hsteady₁
  -- What was asked in between is what the run from here to there has asked.
  obtain rfl : between = more := by
    rw [hasked₁, hbetween, List.append_assoc] at hmore
    exact (List.cons.inj (List.append_cancel_left hmore)).2
  have hremembers (found : Match) :=
    (hsame (Matcher.key patterns text) hothers found).trans (hremembers₁ found)
  refine ⟨hchosen.1 hnone, hremembers, ?_⟩
  rw [asks_iff hmatcher hraw hsteady' hpatterns]
  exact forall_congr' fun found => (not_congr (hremembers found)).trans not_and

/-! ## An answer of another text -/

def always (answer : Except Failure (Option Match)) : Matcher (StateM (Desk (Notebook Unit))) :=
  ⟨fun _ _ => pure answer⟩

def bare (raw : Matcher (StateM (Desk (Notebook Unit)))) :
    Interpreter (StateM (Desk (Notebook Unit))) :=
  ⟨⟨[], [], []⟩, Dict.empty, raw.noting.cached ⟨⟨"cache"⟩⟩ access "step-agent", 0⟩

private theorem matcher_bare (raw : Matcher (StateM (Desk (Notebook Unit)))) :
    (bare raw).matcher = raw.noting.cached ⟨⟨"cache"⟩⟩ access "step-agent" := rfl

def emptyDesk : Desk (Notebook Unit) := ⟨⟨.directory [], [], 0⟩, ⟨[], ()⟩⟩

private theorem scene_emptyDesk (place : Place) (name : String) :
    emptyDesk.files.scene (place ++ [name]) = none := by
  cases place <;> rfl

private theorem steady_emptyDesk (dir : Path) : emptyDesk.files.Steady dir :=
  tidy_of_none fun place name _ => scene_emptyDesk place name

private theorem calm_always (dir : Path) (answer : Except Failure (Option Match))
    (patterns : List String) (text : String) : Calm dir ((always answer).find patterns text) :=
  fun d => yields_pure ⟨.refl d.files, rfl⟩

private theorem hasCalmHandlers_bare (raw : Matcher (StateM (Desk (Notebook Unit)))) (dir : Path) :
    (bare raw).HasCalmHandlers dir := nofun

def strayMatch : Match := ⟨"Ghost", Dict.empty⟩

set_option maxRecDepth 20000 in
private theorem writes_strayMatch :
    Writes (always (.ok (some strayMatch))) ⟨⟨"cache"⟩⟩ "step-agent" ["Log in"] "I log in"
      emptyDesk strayMatch := by
  unfold Writes
  decide +kernel

private theorem asks_emptyDesk (answer : Except Failure (Option Match)) :
    (bare (always answer)).Asks ["Log in"] "I log in" emptyDesk := by
  have hnone (found : Match) : ¬ emptyDesk.Remembers (Cache.directory ⟨⟨"cache"⟩⟩ "step-agent")
      (Matcher.key ["Log in"] "I log in") found := by
    rintro ⟨bytes, ⟨-, directory, -, hseen⟩, -⟩
    rw [scene_emptyDesk] at hseen
    cases hseen
  have hiff := asks_iff (matcher_bare (always answer)) (calm_always _ answer) (steady_emptyDesk _)
    (List.cons_ne_nil "Log in" []) "I log in"
  exact hiff.2 hnone

def strayed : Interpreter (StateM (Desk (Notebook Unit))) := bare (always (.ok (some strayMatch)))

private theorem choose_strayed :
    Yields (strayed.choose ["Log in"] "I log in") emptyDesk fun chosen d' =>
      chosen = .ok none ∧ d'.rest.asked = [⟨["Log in"], "I log in", .ok (some strayMatch)⟩] ∧
        d'.Remembers (Cache.directory ⟨⟨"cache"⟩⟩ "step-agent")
          (Matcher.key ["Log in"] "I log in") strayMatch := by
  have hleft := remembers_after_choose (matcher_bare (always (.ok (some strayMatch))))
    (calm_always _ _) (steady_emptyDesk _) (List.cons_ne_nil "Log in" [])
    (asks_emptyDesk (.ok (some strayMatch))) rfl
  refine hleft.mono ?_
  intro chosen d' hpost
  obtain ⟨-, hasked, hchosen, hremembers⟩ := hpost
  have hstray : strayMatch.pattern ∉ ["Log in"] := by decide
  exact ⟨hchosen.2 (.inr ⟨strayMatch, rfl, hstray⟩), hasked,
    (hremembers strayMatch).2 ⟨rfl, writes_strayMatch⟩⟩

theorem remembers_after_stray_answer :
    ¬ strayed.Asks ["Log in"] "I log in"
      ((strayed.choose ["Log in"] "I log in").run emptyDesk).2 := by
  obtain ⟨hnone, hasked, -⟩ := choose_strayed
  have hanswer : (((always (.ok (some strayMatch))).find ["Log in"] "I log in").run emptyDesk).1 =
      .ok (some strayMatch) := rfl
  have hruns : strayed.Runs ((strayed.choose ["Log in"] "I log in").run emptyDesk).2
      ((strayed.choose ["Log in"] "I log in").run emptyDesk).2 := .refl
  have hthen := remembers_after_none_chosen (matcher_bare _) (calm_always _ _)
    (hasCalmHandlers_bare _ _) (steady_emptyDesk _) (List.cons_ne_nil "Log in" [])
    (asks_emptyDesk _) hanswer hnone hruns hasked (fun _ h => nomatch h)
  exact fun hasks => hthen.2.2.1 hasks strayMatch rfl writes_strayMatch

/-- A match with another pattern is remembered although nothing is chosen. -/
theorem not_forall_recomputed :
    ¬ ∀ (i : Interpreter (StateM (Desk (Notebook Unit))))
      (raw : Matcher (StateM (Desk (Notebook Unit)))) (cache : Cache) (scope : String)
      (d : Desk (Notebook Unit)) (patterns : List String) (text : String) (found : Match),
      i.matcher = raw.noting.cached cache access scope →
      (∀ patterns text, Calm (cache.directory scope) (raw.find patterns text)) →
      i.HasCalmHandlers (cache.directory scope) → d.files.Steady (cache.directory scope) →
      i.Asks patterns text d → ((raw.find patterns text).run d).1 = .ok (some found) →
      found.pattern ∉ patterns → ((i.choose patterns text).run d).1 = .ok none →
      (∀ other, ¬ ((i.choose patterns text).run d).2.Remembers (cache.directory scope)
        (Matcher.key patterns text) other) ∧
      i.Asks patterns text ((i.choose patterns text).run d).2 := by
  intro h
  obtain ⟨hnone, -, hremembers⟩ := choose_strayed
  have hboth := h strayed _ _ _ _ _ _ strayMatch (matcher_bare _) (calm_always _ _)
    (hasCalmHandlers_bare _ _) (steady_emptyDesk _) (asks_emptyDesk _) rfl (by decide) hnone
  exact hboth.1 strayMatch hremembers

end Interpreter
end StepScript
