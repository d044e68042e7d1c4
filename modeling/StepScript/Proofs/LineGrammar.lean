import Mathlib.Data.List.Forall2
import StepScript.Proofs.ActionLine
import StepScript.Proofs.TextLines

/-!
The line grammar of definitions. A line says a title, the opening of a section, or an action, and a
text is read just when its lines, one after the other, are those of some sections: each its opening
and then its actions. A title may stand anywhere between them. Otherwise the first line at fault is
told, and the lines behind it do not count.
-/

set_option autoImplicit false
set_option relaxedAutoImplicit false

namespace StepScript.Script

open Text

/-! ## Markers -/

def IsMarked (marker line : String) : Prop := marker.toList <+: line.toList

/-- A line starts with a marker, and a text stands behind it, trimmed. -/
def Follows (marker line text : String) : Prop :=
  ∃ rest, line.toList = marker.toList ++ rest ∧ text = String.ofList (trimChars rest)

def HasRest (marker line : String) : Prop :=
  ∃ rest, line.toList = marker.toList ++ rest ∧ ¬ AreBlank rest

theorem rest?_eq_some_iff {marker line text : String} :
    rest? marker line = some text ↔ Follows marker line text := by
  unfold rest? Follows
  rw [Option.map_eq_some_iff]
  simp only [afterMark_eq_some_iff]
  exact exists_congr fun rest => and_congr_right fun _ => eq_comm

theorem rest?_eq_none_iff {marker line : String} :
    rest? marker line = none ↔ ¬ IsMarked marker line := by
  simp [rest?, IsMarked, afterMark_eq_none_iff]

private theorem isMarked_iff {marker line : String} :
    IsMarked marker line ↔ ∃ text, Follows marker line text := by
  constructor
  · rintro ⟨rest, hrest⟩
    exact ⟨_, rest, hrest.symm, rfl⟩
  · rintro ⟨text, rest, hrest, -⟩
    exact ⟨rest, hrest.symm⟩

theorem Follows.isMarked {marker line text : String} (h : Follows marker line text) :
    IsMarked marker line := isMarked_iff.2 ⟨text, h⟩

theorem hasRest_iff {marker line : String} :
    HasRest marker line ↔ ∃ text, Follows marker line text ∧ text ≠ "" := by
  constructor
  · rintro ⟨rest, hline, hrest⟩
    exact ⟨_, ⟨rest, hline, rfl⟩, fun h => hrest (ofList_trimChars_eq_empty_iff.1 h)⟩
  · rintro ⟨text, ⟨rest, hline, rfl⟩, hne⟩
    exact ⟨rest, hline, fun h => hne (ofList_trimChars_eq_empty_iff.2 h)⟩

/-- A line does not start with two markers, unless one of them starts with the other. -/
theorem IsMarked.prefix_or_prefix {marker marker' line : String} (h : IsMarked marker line)
    (h' : IsMarked marker' line) :
    marker.toList <+: marker'.toList ∨ marker'.toList <+: marker.toList :=
  List.prefix_or_prefix_of_prefix h h'

/-! ## Lines -/

inductive Saying (α : Type)
  | title (name : String)
  | opening (head : α)
  | action (a : Action)

structure LineForm (α : Type) where
  /-- A line starts with one of the kind's markers. -/
  Marked : String → Prop
  Title : String → String → Prop
  Opening : String → α → Prop
  /-- A line starts with a marker, and its rest is at fault. -/
  Flawed : String → ScriptError → Prop
  orphan : Fault

variable {α : Type}

inductive LineForm.Says (form : LineForm α) (line : String) : Saying α → Prop
  | title {name : String} : form.Title line name → Says form line (.title name)
  | opening {head : α} : form.Opening line head → Says form line (.opening head)
  | action {a : Action} : ¬ form.Marked line → Action.Reads line a → Says form line (.action a)

private theorem LineForm.says_title_iff {form : LineForm α} {line name : String} :
    form.Says line (.title name) ↔ form.Title line name := by
  constructor
  · rintro (h | _ | _)
    exact h
  · exact .title

theorem LineForm.says_opening_iff {form : LineForm α} {line : String} {head : α} :
    form.Says line (.opening head) ↔ form.Opening line head := by
  constructor
  · rintro (_ | h | _)
    exact h
  · exact .opening

/-- What keeps a line from being read behind others. -/
inductive LineForm.Offends (form : LineForm α) (before : List String) (line : String) :
    ScriptError → Prop
  | flawed {e : ScriptError} : form.Flawed line e → Offends form before line e
  | second {name : String} : form.Title line name → (∃ l ∈ before, ∃ name', form.Title l name') →
      Offends form before line (.malformed line .secondConcept)
  | orphan : ¬ form.Marked line → (∀ l ∈ before, ∀ head, ¬ form.Opening l head) →
      Offends form before line (.malformed line form.orphan)
  | action {f : Fault} : ¬ form.Marked line → (∃ l ∈ before, ∃ head, form.Opening l head) →
      Action.IsFault line f → Offends form before line (.malformed line f)

def LineForm.Sound (form : LineForm α) (ls : List String) : Prop :=
  ∀ before line, before ++ [line] <+: ls → ∀ e, ¬ form.Offends before line e

def LineForm.FirstFault (form : LineForm α) (ls : List String) (e : ScriptError) : Prop :=
  ∃ before line, before ++ [line] <+: ls ∧ form.Sound before ∧ form.Offends before line e

def Section.sayings (s : Section α) : List (Saying α) := .opening s.head :: s.actions.map .action

def Saying.titles : Saying α → List String
  | .title name => [name]
  | _ => []

def Saying.body : Saying α → List (Saying α)
  | .title _ => []
  | s => [s]

namespace Saying

variable {sayings : List (Saying α)}

private theorem mem_flatMap_titles {name : String} :
    name ∈ sayings.flatMap titles ↔ .title name ∈ sayings := by
  rw [List.mem_flatMap]
  constructor
  · rintro ⟨s, hs, hname⟩
    cases s with
    | title name' => exact List.mem_singleton.1 hname ▸ hs
    | opening head => cases hname
    | action a => cases hname
  · intro hs
    exact ⟨_, hs, List.mem_singleton_self name⟩

private theorem mem_flatMap_body {s : Saying α} :
    s ∈ sayings.flatMap body ↔ s ∈ sayings ∧ s.titles = [] := by
  rw [List.mem_flatMap]
  constructor
  · rintro ⟨s', hs', hs⟩
    cases s' with
    | title name => cases hs
    | opening head => exact List.mem_singleton.1 hs ▸ ⟨hs', rfl⟩
    | action a => exact List.mem_singleton.1 hs ▸ ⟨hs', rfl⟩
  · rintro ⟨hs, hnone⟩
    cases s with
    | title name => cases hnone
    | opening head => exact ⟨_, hs, List.mem_singleton_self _⟩
    | action a => exact ⟨_, hs, List.mem_singleton_self _⟩

end Saying

/-- Some lines are those of sections, in order, with no more than one title somewhere between them. -/
def LineForm.Laid (form : LineForm α) (ls : List String) (title : Option String)
    (sections : List (Section α)) : Prop :=
  ∃ sayings, List.Forall₂ form.Says ls sayings ∧
    sayings.flatMap Saying.titles = title.toList ∧
    sayings.flatMap Saying.body = sections.flatMap Section.sayings

/-! ## Reading line by line -/

/-- A grammar reads lines as a form says. -/
structure Grammar.Recognises (g : Grammar α) (form : LineForm α) : Prop where
  unmarked : ∀ line, g.mark line = none ↔ ¬ form.Marked line
  title : ∀ line name, g.mark line = some (.ok (.names name)) ↔ form.Title line name
  opening : ∀ line head, g.mark line = some (.ok (.opens head)) ↔ form.Opening line head
  flawed : ∀ line e, g.mark line = some (.error e) ↔ form.Flawed line e
  orphan : g.orphan = form.orphan

namespace Draft

inductive Takes (form : LineForm α) (line : String) : Draft α → Draft α → Prop
  | title {name : String} {sections : List (Section α)} : form.Title line name →
      Takes form line ⟨none, sections⟩ ⟨some name, sections⟩
  | opening {title : Option String} {sections : List (Section α)} {head : α} :
      form.Opening line head → Takes form line ⟨title, sections⟩ ⟨title, ⟨head, []⟩ :: sections⟩
  | action {title : Option String} {earlier : List (Section α)} {head : α} {actions : List Action}
      {a : Action} : ¬ form.Marked line → Action.Reads line a →
      Takes form line ⟨title, ⟨head, actions⟩ :: earlier⟩ ⟨title, ⟨head, actions ++ [a]⟩ :: earlier⟩

inductive Refuses (form : LineForm α) (line : String) (d : Draft α) : ScriptError → Prop
  | flawed {e : ScriptError} : form.Flawed line e → Refuses form line d e
  | second {name : String} : form.Title line name → d.title ≠ none →
      Refuses form line d (.malformed line .secondConcept)
  | orphan : ¬ form.Marked line → d.sections = [] →
      Refuses form line d (.malformed line form.orphan)
  | action {f : Fault} : ¬ form.Marked line → d.sections ≠ [] → Action.IsFault line f →
      Refuses form line d (.malformed line f)

variable {g : Grammar α} {form : LineForm α} {line : String} {d d' : Draft α}

private theorem add_eq_ok_iff (h : g.Recognises form) :
    d.add g line = .ok d' ↔ Takes form line d d' := by
  constructor
  · intro hadd
    unfold add at hadd
    split at hadd
    · next name hmark =>
      split at hadd
      · cases hadd
      · next hnone =>
        obtain ⟨title, sections⟩ := d
        obtain rfl : title = none := by simpa using hnone
        cases hadd
        exact .title ((h.title _ _).1 hmark)
    · next head hmark =>
      cases hadd
      exact .opening ((h.opening _ _).1 hmark)
    · cases hadd
    · next hmark =>
      split at hadd
      · cases hadd
      · next s earlier hsections =>
        split at hadd
        · next a hparse =>
          obtain ⟨title, sections⟩ := d
          cases hsections
          cases hadd
          exact .action ((h.unmarked _).1 hmark) (Action.parse_eq_ok_iff.1 hparse)
        · cases hadd
  · rintro (htitle | hopening | ⟨hmark, hreads⟩)
    · simp [add, (h.title _ _).2 htitle]
    · simp [add, (h.opening _ _).2 hopening]
    · simp [add, (h.unmarked _).2 hmark, Action.parse_eq_ok_iff.2 hreads]

private theorem add_eq_error_iff (h : g.Recognises form) (htrim : trim line = line)
    {e : ScriptError} :
    d.add g line = .error e ↔ Refuses form line d e := by
  constructor
  · intro hadd
    unfold add at hadd
    split at hadd
    · next name hmark =>
      split at hadd
      · next hsome =>
        cases hadd
        exact .second ((h.title _ _).1 hmark) (Option.isSome_iff_ne_none.1 hsome)
      · cases hadd
    · cases hadd
    · next hmark =>
      cases hadd
      exact .flawed ((h.flawed _ _).1 hmark)
    · next hmark =>
      split at hadd
      · next hsections =>
        cases hadd
        rw [h.orphan]
        exact .orphan ((h.unmarked _).1 hmark) hsections
      · next s earlier hsections =>
        split at hadd
        · cases hadd
        · next hparse =>
          cases hadd
          obtain ⟨f, hfault, rfl⟩ := Action.parse_eq_error_iff.1 hparse
          rw [htrim]
          exact .action ((h.unmarked _).1 hmark) (by simp [hsections]) hfault
  · rintro (hflawed | ⟨htitle, hne⟩ | ⟨hmark, hsections⟩ | ⟨hmark, hsections, hfault⟩)
    · simp [add, (h.flawed _ _).2 hflawed]
    · simp [add, (h.title _ _).2 htitle, Option.isSome_iff_ne_none.2 hne, fault]
    · simp [add, (h.unmarked _).2 hmark, hsections, h.orphan, fault]
    · obtain ⟨s, earlier, hcons⟩ := List.exists_cons_of_ne_nil hsections
      have hparse := Action.parse_eq_error_iff.2 ⟨_, hfault, rfl⟩
      rw [htrim] at hparse
      simp [add, (h.unmarked _).2 hmark, hcons, hparse]

private theorem addAll_append (g : Grammar α) (d : Draft α) (ls more : List String) :
    addAll g d (ls ++ more) = (addAll g d ls).bind fun d' => addAll g d' more := by
  induction ls generalizing d with
  | nil => rfl
  | cons line ls ih =>
    simp only [List.cons_append, addAll]
    cases d.add g line with
    | error e => rfl
    | ok d' => exact ih d'

private theorem addAll_append_eq_ok_iff {ls : List String} {d'' : Draft α} :
    addAll g d (ls ++ [line]) = .ok d'' ↔
      ∃ d', addAll g d ls = .ok d' ∧ d'.add g line = .ok d'' := by
  rw [addAll_append]
  cases addAll g d ls with
  | error e => simp [Except.bind]
  | ok d' =>
    simp only [Except.bind, addAll]
    cases hadd : d'.add g line <;> simp [hadd]

private theorem addAll_eq_error_iff {ls : List String} {e : ScriptError} :
    addAll g d ls = .error e ↔ ∃ before line d', before ++ [line] <+: ls ∧
      addAll g d before = .ok d' ∧ d'.add g line = .error e := by
  constructor
  · intro h
    induction ls generalizing d with
    | nil => cases h
    | cons line ls ih =>
      simp only [addAll] at h
      cases hadd : d.add g line with
      | error e' =>
        rw [hadd] at h
        cases h
        exact ⟨[], line, d, List.prefix_append [line] ls, rfl, hadd⟩
      | ok d' =>
        rw [hadd] at h
        obtain ⟨before, line', d'', hinit, hbefore, herror⟩ := ih h
        exact ⟨line :: before, line', d'', List.cons_prefix_cons.2 ⟨rfl, hinit⟩,
          by rw [addAll, hadd]; exact hbefore, herror⟩
  · rintro ⟨before, line, d', ⟨after, rfl⟩, hbefore, herror⟩
    rw [List.append_assoc, addAll_append, hbefore]
    simp [Except.bind, addAll, herror]

end Draft

/-! ## What has been read -/

variable {g : Grammar α} {form : LineForm α}

private theorem Grammar.Recognises.mark_eq (h : g.Recognises form) {line : String} {s : Saying α}
    (hs : form.Says line s) : g.mark line =
      match s with
      | .title name => some (.ok (.names name))
      | .opening head => some (.ok (.opens head))
      | .action _ => none := by
  cases hs with
  | title htitle => exact (h.title _ _).2 htitle
  | opening hopening => exact (h.opening _ _).2 hopening
  | action hmark _ => exact (h.unmarked _).2 hmark

private theorem Grammar.Recognises.saying_unique (h : g.Recognises form) {line : String}
    {s s' : Saying α} (hs : form.Says line s) (hs' : form.Says line s') : s = s' := by
  have hmark := h.mark_eq hs
  rw [h.mark_eq hs'] at hmark
  cases hs with
  | title _ | opening _ => cases hs' <;> simp_all
  | action _ hreads =>
    cases hs' with
    | title _ | opening _ => cases hmark
    | action _ hreads' =>
      have hparse := Action.parse_eq_ok_iff.2 hreads
      rw [Action.parse_eq_ok_iff.2 hreads'] at hparse
      cases hparse
      rfl

private theorem forall₂_append_singleton_iff {β γ : Type} {R : β → γ → Prop} {xs : List β} {x : β}
    {zs : List γ} : List.Forall₂ R (xs ++ [x]) zs ↔
      ∃ ys y, zs = ys ++ [y] ∧ List.Forall₂ R xs ys ∧ R x y := by
  rw [← List.forall₂_reverse_iff, List.reverse_append, List.reverse_singleton,
    List.singleton_append, List.forall₂_cons_left_iff]
  constructor
  · rintro ⟨y, ys, hy, hys, hzs⟩
    refine ⟨ys.reverse, y, by rw [← List.reverse_reverse zs, hzs]; simp, ?_, hy⟩
    rw [← List.forall₂_reverse_iff, List.reverse_reverse]
    exact hys
  · rintro ⟨ys, y, rfl, hys, hy⟩
    exact ⟨y, ys.reverse, hy, List.forall₂_reverse_iff.2 hys, by simp⟩

private theorem LineForm.laid_nil_iff {title : Option String} {sections : List (Section α)} :
    form.Laid [] title sections ↔ title = none ∧ sections = [] := by
  constructor
  · rintro ⟨_, ⟨⟩, htitle, hsections⟩
    refine ⟨by cases title <;> simp_all, ?_⟩
    cases sections with
    | nil => rfl
    | cons s sections => simp [Section.sayings] at hsections
  · rintro ⟨rfl, rfl⟩
    exact ⟨[], .nil, rfl, rfl⟩

private theorem Section.sayings_append (head : α) (actions : List Action) (a : Action) :
    Section.sayings ⟨head, actions ++ [a]⟩ = Section.sayings ⟨head, actions⟩ ++ [.action a] := by
  simp [Section.sayings]

private theorem Section.last_saying {sections : List (Section α)} {before : List (Saying α)}
    {s : Saying α} (h : before ++ [s] = sections.reverse.flatMap Section.sayings) :
    ∃ head actions earlier, sections = ⟨head, actions⟩ :: earlier ∧
      (s = .opening head ∧ actions = [] ∧ before = earlier.reverse.flatMap Section.sayings ∨
        ∃ others a, s = .action a ∧ actions = others ++ [a] ∧
          before = (⟨head, others⟩ :: earlier).reverse.flatMap Section.sayings) := by
  cases sections with
  | nil => simp at h
  | cons last earlier =>
    obtain ⟨head, actions⟩ := last
    refine ⟨head, actions, earlier, rfl, ?_⟩
    rw [List.reverse_cons, List.flatMap_append, List.flatMap_singleton] at h
    rcases List.eq_nil_or_concat actions with rfl | ⟨others, a, rfl⟩
    · obtain ⟨hbefore, hs⟩ := List.append_inj' h rfl
      cases hs
      exact .inl ⟨rfl, rfl, hbefore⟩
    · rw [List.concat_eq_append, Section.sayings_append, ← List.append_assoc] at h
      obtain ⟨hbefore, hs⟩ := List.append_inj' h rfl
      cases hs
      refine .inr ⟨others, a, rfl, by simp, ?_⟩
      rw [hbefore, List.reverse_cons, List.flatMap_append, List.flatMap_singleton]

private theorem LineForm.laid_append_iff {ls : List String} {line : String} {d' : Draft α} :
    form.Laid (ls ++ [line]) d'.title d'.sections.reverse ↔
      ∃ d, form.Laid ls d.title d.sections.reverse ∧ Draft.Takes form line d d' := by
  obtain ⟨title, sections⟩ := d'
  constructor
  · rintro ⟨sayings, hsayings, htitles, hbody⟩
    obtain ⟨earlier, s, rfl, hearlier, hs⟩ := forall₂_append_singleton_iff.1 hsayings
    rw [List.flatMap_append, List.flatMap_singleton] at htitles hbody
    -- What the last line says tells what the draft was before it.
    cases hs with
    | @title name htitle =>
      obtain ⟨hnone, hname⟩ : earlier.flatMap Saying.titles = [] ∧ title = some name := by
        cases title <;> simp_all [Saying.titles, List.append_eq_singleton_iff]
      subst hname
      simp only [Saying.body, List.append_nil] at hbody
      exact ⟨⟨none, sections⟩, ⟨earlier, hearlier, hnone, hbody⟩, .title htitle⟩
    | @opening head hopening =>
      simp only [Saying.titles, List.append_nil] at htitles
      obtain ⟨_, _, rest, rfl, ⟨⟨⟩, rfl, hrest⟩ | ⟨_, _, ⟨⟩, -⟩⟩ := Section.last_saying hbody
      exact ⟨⟨title, rest⟩, ⟨earlier, hearlier, htitles, hrest⟩, .opening hopening⟩
    | @action a hmark hreads =>
      simp only [Saying.titles, List.append_nil] at htitles
      obtain ⟨head, _, rest, rfl, ⟨⟨⟩, -⟩ | ⟨others, _, ⟨⟩, rfl, hrest⟩⟩ := Section.last_saying hbody
      exact ⟨⟨title, ⟨head, others⟩ :: rest⟩, ⟨earlier, hearlier, htitles, hrest⟩,
        .action hmark hreads⟩
  · rintro ⟨d, ⟨sayings, hsayings, htitles, hbody⟩, htakes⟩
    cases htakes with
    | title htitle =>
      refine ⟨_, forall₂_append_singleton_iff.2 ⟨_, _, rfl, hsayings, .title htitle⟩, ?_, ?_⟩
      · simp [htitles, Saying.titles]
      · simp [hbody, Saying.body]
    | opening hopening =>
      refine ⟨_, forall₂_append_singleton_iff.2 ⟨_, _, rfl, hsayings, .opening hopening⟩, ?_, ?_⟩
      · simp [htitles, Saying.titles]
      · simp [hbody, Saying.body, Section.sayings]
    | action hmark hreads =>
      refine ⟨_, forall₂_append_singleton_iff.2 ⟨_, _, rfl, hsayings, .action hmark hreads⟩, ?_, ?_⟩
      · simp [htitles, Saying.titles]
      · simp [hbody, Saying.body, Section.sayings]

namespace Grammar.Recognises

private theorem addAll_eq_ok_iff (h : g.Recognises form) {ls : List String} {d : Draft α} :
    Draft.addAll g ⟨none, []⟩ ls = .ok d ↔ form.Laid ls d.title d.sections.reverse := by
  induction ls using List.reverseRecOn generalizing d with
  | nil =>
    rw [LineForm.laid_nil_iff, List.reverse_eq_nil_iff]
    obtain ⟨title, sections⟩ := d
    simp [Draft.addAll, eq_comm]
  | append_singleton ls line ih =>
    rw [Draft.addAll_append_eq_ok_iff, LineForm.laid_append_iff]
    simp only [ih, Draft.add_eq_ok_iff h]

private theorem mem_sayings_iff (h : g.Recognises form) {ls : List String}
    {sayings : List (Saying α)} (hsayings : List.Forall₂ form.Says ls sayings) {s : Saying α} :
    s ∈ sayings ↔ ∃ l ∈ ls, form.Says l s := by
  induction hsayings with
  | nil => simp
  | cons hs _ ih =>
    rw [List.mem_cons, List.exists_mem_cons_iff, ih]
    exact or_congr_left ⟨fun heq => heq ▸ hs, fun hs' => h.saying_unique hs' hs⟩

theorem title_iff_of_laid (h : g.Recognises form) {ls : List String} {title : Option String}
    {sections : List (Section α)} (hlaid : form.Laid ls title sections) {name : String} :
    title = some name ↔ ∃ l ∈ ls, form.Title l name := by
  obtain ⟨sayings, hsayings, htitles, -⟩ := hlaid
  rw [← Option.mem_toList, ← htitles, Saying.mem_flatMap_titles, h.mem_sayings_iff hsayings]
  simp only [LineForm.says_title_iff]

theorem mem_sayings_iff_of_laid (h : g.Recognises form) {ls : List String} {title : Option String}
    {sections : List (Section α)} (hlaid : form.Laid ls title sections) {s : Saying α}
    (hs : s.titles = []) : s ∈ sections.flatMap Section.sayings ↔ ∃ l ∈ ls, form.Says l s := by
  obtain ⟨sayings, hsayings, -, hbody⟩ := hlaid
  rw [← hbody, Saying.mem_flatMap_body, h.mem_sayings_iff hsayings, and_iff_left hs]

theorem title_ne_none_iff (h : g.Recognises form) {ls : List String} {title : Option String}
    {sections : List (Section α)} (hlaid : form.Laid ls title sections) :
    title ≠ none ↔ ∃ l ∈ ls, ∃ name, form.Title l name := by
  simp only [Option.ne_none_iff_exists', h.title_iff_of_laid hlaid]
  exact exists_comm.trans (by simp)

private theorem sections_ne_nil_iff (h : g.Recognises form) {ls : List String}
    {title : Option String} {sections : List (Section α)} (hlaid : form.Laid ls title sections) :
    sections ≠ [] ↔ ∃ l ∈ ls, ∃ head, form.Opening l head := by
  have hsections : sections ≠ [] ↔
      ∃ head, Saying.opening head ∈ sections.flatMap Section.sayings := by
    cases sections with
    | nil => simp
    | cons s rest => simpa using ⟨s.head, by simp [Section.sayings]⟩
  have hsaid (head : α) := h.mem_sayings_iff_of_laid hlaid (s := .opening head) rfl
  simp only [hsections, hsaid, LineForm.says_opening_iff]
  exact exists_comm.trans (by simp)

private theorem add_eq_error_iff (h : g.Recognises form) {before : List String} {d : Draft α}
    {line : String}
    (hbefore : Draft.addAll g ⟨none, []⟩ before = .ok d) (htrim : trim line = line)
    {e : ScriptError} : d.add g line = .error e ↔ form.Offends before line e := by
  have hlaid := h.addAll_eq_ok_iff.1 hbefore
  have htitle := h.title_ne_none_iff hlaid
  have hsections := h.sections_ne_nil_iff hlaid
  rw [ne_eq, List.reverse_eq_nil_iff] at hsections
  rw [Draft.add_eq_error_iff h htrim]
  constructor
  · rintro (hflawed | ⟨hname, hsome⟩ | ⟨hmark, hnil⟩ | ⟨hmark, hne, hfault⟩)
    · exact .flawed hflawed
    · exact .second hname (htitle.1 hsome)
    · refine .orphan hmark fun l hl head hhead => ?_
      exact hsections.2 ⟨l, hl, head, hhead⟩ hnil
    · exact .action hmark (hsections.1 hne) hfault
  · rintro (hflawed | ⟨hname, hsome⟩ | ⟨hmark, hnone⟩ | ⟨hmark, hopen, hfault⟩)
    · exact .flawed hflawed
    · exact .second hname (htitle.2 hsome)
    · refine .orphan hmark (Decidable.not_not.1 fun hne => ?_)
      obtain ⟨l, hl, head, hhead⟩ := hsections.1 hne
      exact hnone l hl head hhead
    · exact .action hmark (hsections.2 hopen) hfault

private theorem exists_addAll_iff (h : g.Recognises form) {ls : List String}
    (htrim : ∀ l ∈ ls, trim l = l) :
    (∃ d, Draft.addAll g ⟨none, []⟩ ls = .ok d) ↔ form.Sound ls := by
  have hline {before : List String} {line : String} (hinit : before ++ [line] <+: ls) :
      trim line = line := htrim line (hinit.subset (by simp))
  constructor
  · rintro ⟨d, hd⟩ before line hinit e hoffends
    obtain ⟨after, rfl⟩ := hinit
    rw [Draft.addAll_append] at hd
    cases hread : Draft.addAll g ⟨none, []⟩ (before ++ [line]) with
    | error e' => simp [hread, Except.bind] at hd
    | ok d'' =>
      obtain ⟨d', hbefore, hadd⟩ := Draft.addAll_append_eq_ok_iff.1 hread
      rw [← h.add_eq_error_iff hbefore (hline (List.prefix_append _ _)), hadd] at hoffends
      cases hoffends
  · intro hsound
    cases hread : Draft.addAll g ⟨none, []⟩ ls with
    | ok d => exact ⟨d, rfl⟩
    | error e =>
      obtain ⟨before, line, d', hinit, hbefore, herror⟩ := Draft.addAll_eq_error_iff.1 hread
      exact absurd ((h.add_eq_error_iff hbefore (hline hinit)).1 herror) (hsound _ _ hinit e)

private theorem addAll_eq_error_iff (h : g.Recognises form) {ls : List String}
    (htrim : ∀ l ∈ ls, trim l = l) {e : ScriptError} :
    Draft.addAll g ⟨none, []⟩ ls = .error e ↔ form.FirstFault ls e := by
  have hsub {before : List String} {line : String} (hinit : before ++ [line] <+: ls) :
      (∀ l ∈ before, trim l = l) ∧ trim line = line :=
    ⟨fun l hl => htrim l (hinit.subset (by simp [hl])), htrim line (hinit.subset (by simp))⟩
  rw [Draft.addAll_eq_error_iff]
  refine exists_congr fun before => exists_congr fun line => ?_
  constructor
  · rintro ⟨d, hinit, hbefore, herror⟩
    exact ⟨hinit, (h.exists_addAll_iff (hsub hinit).1).1 ⟨d, hbefore⟩,
      (h.add_eq_error_iff hbefore (hsub hinit).2).1 herror⟩
  · rintro ⟨hinit, hsound, hoffends⟩
    obtain ⟨d, hbefore⟩ := (h.exists_addAll_iff (hsub hinit).1).2 hsound
    exact ⟨d, hinit, hbefore, (h.add_eq_error_iff hbefore (hsub hinit).2).2 hoffends⟩

end Grammar.Recognises

/-! ## Reading a text -/

namespace Grammar.Recognises

theorem read_eq_ok_iff (h : g.Recognises form) {source : String} {title : Option String}
    {sections : List (Section α)} :
    g.read source = .ok (title, sections) ↔ form.Laid (lines source) title sections := by
  have hlaid : Draft.addAll g ⟨none, []⟩ (lines source) = .ok ⟨title, sections.reverse⟩ ↔
      form.Laid (lines source) title sections := by
    rw [h.addAll_eq_ok_iff, List.reverse_reverse]
  rw [← hlaid, read]
  cases hread : Draft.addAll g ⟨none, []⟩ (lines source) with
  | error e => simp
  | ok d =>
    obtain ⟨title', sections'⟩ := d
    simp [List.reverse_eq_iff]

theorem exists_read_iff (h : g.Recognises form) {source : String} :
    (∃ title sections, g.read source = .ok (title, sections)) ↔ form.Sound (lines source) := by
  rw [← h.exists_addAll_iff fun l hl => (trim_of_mem_lines hl).1]
  simp only [h.read_eq_ok_iff, h.addAll_eq_ok_iff]
  constructor
  · rintro ⟨title, sections, hlaid⟩
    exact ⟨⟨title, sections.reverse⟩, by simpa using hlaid⟩
  · rintro ⟨d, hlaid⟩
    exact ⟨_, _, hlaid⟩

theorem read_eq_error_iff (h : g.Recognises form) {source : String} {e : ScriptError} :
    g.read source = .error e ↔ form.FirstFault (lines source) e := by
  rw [← h.addAll_eq_error_iff fun l hl => (trim_of_mem_lines hl).1, read]
  cases Draft.addAll g ⟨none, []⟩ (lines source) <;> simp

end Grammar.Recognises

namespace LineForm

private theorem FirstFault.mono {ls ls' : List String} {e : ScriptError} (h : form.FirstFault ls e)
    (hinit : ls <+: ls') : form.FirstFault ls' e := by
  obtain ⟨before, line, hbefore, hrest⟩ := h
  exact ⟨before, line, hbefore.trans hinit, hrest⟩

def Opened (form : LineForm α) (ls : List String) : Prop :=
  ∀ before line, before ++ [line] <+: ls → ¬ form.Marked line →
    ∃ l ∈ before, ∃ head, form.Opening l head

def TitledOnce (form : LineForm α) (ls : List String) : Prop :=
  ls.Pairwise fun l line => ¬ ((∃ name, form.Title l name) ∧ ∃ name, form.Title line name)

private theorem forall_init_iff_pairwise {β : Type} {R : β → β → Prop} {xs : List β} :
    (∀ before x, before ++ [x] <+: xs → ∀ y ∈ before, R y x) ↔ xs.Pairwise R := by
  constructor
  · intro h
    induction xs using List.reverseRecOn with
    | nil => exact .nil
    | append_singleton xs x ih =>
      rw [List.pairwise_append]
      refine ⟨ih fun before y hinit => h before y (hinit.trans (List.prefix_append xs [x])),
        List.pairwise_singleton R x, fun y hy z hz => ?_⟩
      obtain rfl := List.mem_singleton.1 hz
      exact h xs z (List.prefix_refl _) y hy
  · intro h before x hinit y hy
    exact (List.pairwise_append.1 (h.sublist hinit.sublist)).2.2 y hy x (List.mem_singleton_self x)

theorem sound_iff {ls : List String} : form.Sound ls ↔
    (∀ l ∈ ls, ∀ e, ¬ form.Flawed l e) ∧ (∀ l ∈ ls, ¬ form.Marked l → IsActionLine l) ∧
      form.Opened ls ∧ form.TitledOnce ls := by
  constructor
  · intro h
    have hopened : form.Opened ls := by
      intro before line hinit hmark
      by_contra hnone
      refine h before line hinit _ (.orphan hmark fun l hl head hhead => ?_)
      exact hnone ⟨l, hl, head, hhead⟩
    refine ⟨fun l hl e hflawed => ?_, fun l hl hmark => ?_, hopened,
      forall_init_iff_pairwise.1 fun before line hinit l hl ⟨htitle, _, hline⟩ =>
        h before line hinit _ (.second hline ⟨l, hl, htitle⟩)⟩
    · obtain ⟨before, after, rfl⟩ := List.append_of_mem hl
      exact h before l ⟨after, by simp⟩ e (.flawed hflawed)
    · obtain ⟨before, after, rfl⟩ := List.append_of_mem hl
      have hinit : before ++ [l] <+: before ++ l :: after := ⟨after, by simp⟩
      rw [← Action.not_isFault_iff]
      exact fun f hfault => h before l hinit _ (.action hmark (hopened _ _ hinit hmark) hfault)
  · rintro ⟨hflawed, hactions, hopened, htitles⟩ before line hinit e hoffends
    have hmem : line ∈ ls := hinit.subset (by simp)
    cases hoffends with
    | flawed h => exact hflawed line hmem e h
    | second htitle hbefore =>
      obtain ⟨l, hl, hl'⟩ := hbefore
      exact forall_init_iff_pairwise.2 htitles before line hinit l hl ⟨hl', _, htitle⟩
    | orphan hmark hnone =>
      obtain ⟨l, hl, head, hhead⟩ := hopened before line hinit hmark
      exact hnone l hl head hhead
    | action hmark _ hfault => exact Action.not_isFault_iff.2 (hactions line hmem hmark) _ hfault

theorem opened_iff {ls : List String} (h : ∀ l ∈ ls, form.Marked l → ∃ head, form.Opening l head) :
    form.Opened ls ↔ ∀ l ∈ ls.head?, form.Marked l := by
  constructor
  · intro hopened l hl
    by_contra hmark
    obtain ⟨rest, rfl⟩ := List.head?_eq_some_iff.1 hl
    obtain ⟨l', hl', -⟩ := hopened [] l (List.prefix_append [l] rest) hmark
    cases hl'
  · rintro hfirst before line ⟨after, rfl⟩ hmark
    cases before with
    | nil => exact absurd (hfirst line rfl) hmark
    | cons l before => exact ⟨l, by simp, h l (by simp) (hfirst l rfl)⟩

end LineForm

theorem Grammar.Recognises.early (h : g.Recognises form) {source : String} (more : String)
    {e : ScriptError} (hfault : form.FirstFault (lines source) e) :
    g.read (source ++ "\n" ++ more) = .error e := by
  rw [h.read_eq_error_iff, lines_append]
  exact hfault.mono (List.prefix_append _ _)

theorem Grammar.Recognises.title_eq_none (h : g.Recognises form)
    (htitle : ∀ l name, ¬ form.Title l name) {ls : List String} {title : Option String}
    {sections : List (Section α)} (hlaid : form.Laid ls title sections) : title = none := by
  by_contra hne
  obtain ⟨l, -, name, hname⟩ := (h.title_ne_none_iff hlaid).1 hne
  exact htitle l name hname

/-- A line is not flawed when its marker, if it has one, is read as a title or an opening. -/
theorem Grammar.Recognises.not_flawed_iff (h : g.Recognises form) {l : String} :
    (∀ e, ¬ form.Flawed l e) ↔
      (form.Marked l → (∃ name, form.Title l name) ∨ ∃ head, form.Opening l head) := by
  have hmarked : form.Marked l ↔ g.mark l ≠ none := by
    rw [ne_eq, h.unmarked, not_not]
  simp only [hmarked, ← h.flawed, ← h.title, ← h.opening]
  rcases g.mark l with _ | (_ | (_ | _)) <;> simp

end StepScript.Script
