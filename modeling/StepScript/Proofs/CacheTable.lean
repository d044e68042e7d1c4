import Mathlib.Data.Finset.Card
import StepScript.Proofs.CacheUpkeep
import StepScript.Proofs.JsonRecord

/-!
A cache as a finite table of values. The table says what each call is to answer; a tree holds a
table when the files of the cache are exactly the table's entries. Writing an entry and reading one
do to the tree what they do to the table.
-/

set_option autoImplicit false
set_option relaxedAutoImplicit false

namespace StepScript.Cache

open FileTree Desk Json

/-! ## Calls and what they answer -/

inductive Value
  | matched (found : Match)
  | toolCalls (calls : List ToolCall)

def Value.bytes : Value → ByteArray
  | .matched found => (Codec.encode found).indented.toUTF8
  | .toolCalls calls => (Codec.encode calls).indented.toUTF8

inductive Call
  | write (scope key : String) (v : Value)
  | readMatch (scope key : String)
  | readToolCalls (scope key : String)
  | list (only : Option String)
  | clear (only : Option String)

inductive Reply
  | written (r : Except CacheError Unit)
  | foundMatch (r : Except CacheError (Option Match))
  | foundToolCalls (r : Except CacheError (Option (List ToolCall)))
  | listed (r : Except CacheError (List CacheEntry))
  | cleared (r : Except CacheError Nat)

section

variable {m : Type → Type} [Monad m]

def writeValue (c : Cache) (files : FileAccess m) (scope key : String) :
    Value → m (Except CacheError Unit)
  | .matched found => c.write files scope key found
  | .toolCalls calls => c.write files scope key calls

def carryOut (c : Cache) (files : FileAccess m) : Call → m Reply
  | .write scope key v => return .written (← c.writeValue files scope key v)
  | .readMatch scope key => return .foundMatch (← c.read? files scope key)
  | .readToolCalls scope key => return .foundToolCalls (← c.read? files scope key)
  | .list only => return .listed (← c.list files only)
  | .clear only => return .cleared (← c.clear files only)

end

/-- A finite map from namespaces and keys to values, with the sites that have one. -/
structure Table where
  value? : String → String → Option Value
  live : Finset (String × String)
  mem_live : ∀ scope key, (scope, key) ∈ live ↔ (value? scope key).isSome

def covers (only : Option String) (scope : String) : Bool := only.all fun name => name == scope

namespace Table

def empty : Table where
  value? _ _ := none
  live := ∅
  mem_live := by simp

def put (table : Table) (scope key : String) (v : Value) : Table where
  value? scope' key' := if scope' = scope ∧ key' = key then some v else table.value? scope' key'
  live := insert (scope, key) table.live
  mem_live scope' key' := by
    rw [Finset.mem_insert, Prod.mk.injEq, table.mem_live]
    split
    · next h => simp [h]
    · next h => simp [h]

def drop (table : Table) (only : Option String) : Table where
  value? scope key := if covers only scope then none else table.value? scope key
  live := table.live.filter fun site => ¬ covers only site.1
  mem_live scope key := by
    rw [Finset.mem_filter, table.mem_live]
    split
    · next h => simp [h]
    · next h => simp [h]

def covered (table : Table) (only : Option String) : Finset (String × String) :=
  table.live.filter fun site => covers only site.1

def after (table : Table) : Call → Table
  | .write scope key v => table.put scope key v
  | .clear only => table.drop only
  | .readMatch _ _ | .readToolCalls _ _ | .list _ => table

end Table

def shown (c : Cache) (scope key : String) (v : Value) : CacheEntry where
  scope := scope
  path := c.pathOf scope key
  size := v.bytes.size
  modified := none

@[simp]
theorem shown_path (c : Cache) (scope key : String) (v : Value) :
    (c.shown scope key v).path = c.pathOf scope key := by
  simp only [shown]

theorem fileOf_shown (c : Cache) (scope key : String) (v : Value) :
    c.fileOf scope ((Sight.file v.bytes).shown (fileName key)) = c.shown scope key v := by
  simp only [fileOf, Sight.shown, Sight.size, shown, pathOf]

/-- An entry of a listing is the one of a site. -/
def Table.Shows (c : Cache) (table : Table) (e : CacheEntry) (site : String × String) : Prop :=
  ∃ v, table.value? site.1 site.2 = some v ∧ e = c.shown site.1 site.2 v

/-- What a call is to answer. A value that is read as one of another kind is left open. -/
def Table.Answers (c : Cache) (table : Table) : Call → Reply → Prop
  | .write _ _ _, .written r => r = .ok ()
  | .readMatch scope key, .foundMatch r =>
    (table.value? scope key = none → r = .ok none) ∧
      ∀ found, table.value? scope key = some (.matched found) → r = .ok (some found)
  | .readToolCalls scope key, .foundToolCalls r =>
    (table.value? scope key = none → r = .ok none) ∧
      ∀ calls, table.value? scope key = some (.toolCalls calls) → r = .ok (some calls)
  | .list only, .listed r =>
    ∃ entries sites, r = .ok entries ∧ List.Forall₂ (table.Shows c) entries sites ∧
      sites.Nodup ∧ sites.toFinset = table.covered only ∧
        entries.Pairwise fun a b => a.path.before b.path = true
  | .clear only, .cleared r => r = .ok (table.covered only).card
  | _, _ => False

/-! ## Trees that hold a table -/

structure Takes (c : Cache) (scope : String) : Prop where
  isFileName : IsFileName scope
  short : scope.utf8ByteSize ≤ nameLimit
  accepted : refusal? (c.directory scope).text = none

namespace Takes

variable {c : Cache} {scope key : String}

private theorem admits {name : String} (h : c.Takes scope) (hname : IsFileName name)
    (hshort : name.utf8ByteSize ≤ nameLimit)
    (hroom : (c.directory scope).text.utf8ByteSize + (1 + name.utf8ByteSize) ≤ pathLimit) :
    Admits (c.directory scope) name := by
  have htext : ((c.directory scope).entry name).text =
      (c.directory scope).text ++ ("/" ++ name) :=
    Path.text_entry_entry c.root h.isFileName hname
  have hsize : ("/" ++ name).utf8ByteSize = 1 + name.utf8ByteSize := String.utf8ByteSize_append
  obtain ⟨hnul, -, hne⟩ := refusal?_eq_none_iff.1 h.accepted
  refine ⟨refusal?_eq_none_iff.2 ⟨?_, ?_, ?_⟩, hshort⟩
  · simp only [htext, String.toList_append, List.mem_append, not_or]
    exact ⟨hnul, by decide, hname.noNul⟩
  · rw [htext, String.utf8ByteSize_append, hsize]
    exact hroom
  · intro hempty
    rw [htext, String.append_eq_empty_iff] at hempty
    exact hne hempty.1

/-- A path of 4025 bytes leaves room for the entries of a namespace. -/
theorem admits_fileName (h : c.Takes scope)
    (hroom : (c.directory scope).text.utf8ByteSize + 70 ≤ pathLimit) :
    Admits (c.directory scope) (fileName key) := by
  have hsize := utf8ByteSize_fileName key
  exact h.admits (isFileName_fileName key) (by rw [hsize]; decide) (by omega)

/-- A path of 3993 bytes leaves room for the files that are written beside them. -/
theorem admits_temporaryName {n : Nat} (h : c.Takes scope)
    (hn : (Nat.toDigits 16 n).length ≤ tokenLength)
    (hroom : (c.directory scope).text.utf8ByteSize + 102 ≤ pathLimit) :
    Admits (c.directory scope) (temporaryName key n) := by
  have hsize := utf8ByteSize_temporaryName key hn
  exact h.admits (isFileName_temporaryName key n) (by rw [hsize]; decide) (by omega)

end Takes

/-- The files of a cache that stands at a place, or could, are the entries of a table. -/
structure Holds (c : Cache) (place : Place) (known : Set String) (table : Table) (t : FileTree) :
    Prop where
  distinct : t.Distinct
  reaches : t.Reaches c.root place
  accepted : refusal? c.root.text = none
  known : ∀ scope key v, table.value? scope key = some v → key ∈ known
  scopes : ∀ scope sight, t.scene (place ++ [scope]) = some sight →
    sight = .directory ∧ c.Takes scope
  entry : ∀ scope key v, table.value? scope key = some v →
    t.scene (filed place scope key) = some (.file v.bytes) ∧
      Admits (c.directory scope) (fileName key)
  only : ∀ scope name sight, t.scene (place ++ [scope] ++ [name]) = some sight →
    ∃ key v, table.value? scope key = some v ∧ name = fileName key

namespace Holds

variable {c : Cache} {place : Place} {known : Set String} {table : Table} {t t' : FileTree}
  {scope key : String} {v : Value}

theorem fits (h : Holds c place known table t) (hscope : c.Takes scope) : t.Fits place scope := by
  refine ⟨hscope.isFileName, hscope.short, ?_⟩
  cases hseen : t.scene (place ++ [scope]) with
  | none => exact .inl rfl
  | some sight => exact .inr (by rw [(h.scopes scope sight hseen).1])

theorem opens_root (h : Holds c place known table t) {sight : Sight}
    (hseen : t.scene (place ++ [scope]) = some sight) : t.Opens c.root place :=
  h.reaches.opens (FileNode.scene_isDirectory hseen)

theorem opens_directory (h : Holds c place known table t) {sight : Sight}
    (hseen : t.scene (place ++ [scope]) = some sight) :
    t.Opens (c.directory scope) (place ++ [scope]) := by
  obtain ⟨rfl, htakes⟩ := h.scopes scope sight hseen
  exact (h.fits htakes).opens_entry (h.opens_root hseen) hseen

theorem has (h : Holds c place known table t) (hv : table.value? scope key = some v) :
    t.Has (c.directory scope) (fileName key) v.bytes := by
  obtain ⟨hseen, hadmits⟩ := h.entry scope key v hv
  exact ⟨hadmits, _, h.opens_directory (FileNode.scene_isDirectory hseen), hseen⟩

private theorem scene_temporary (h : Holds c place known table t) (n : Nat) :
    t.scene (place ++ [scope] ++ [temporaryName key n]) = none := by
  by_contra hsome
  obtain ⟨sight, hseen⟩ := Option.ne_none_iff_exists'.1 hsome
  obtain ⟨key', v, -, hname⟩ := h.only scope _ sight hseen
  exact fileName_ne_temporaryName key' key n hname.symm

private theorem plain (h : Holds c place known table t) :
    t.Plain (place ++ [scope]) (fileName key) := by
  intro sight hseen
  obtain ⟨key', v, hv, hname⟩ := h.only scope _ sight hseen
  rw [hname, (h.entry scope key' v hv).1] at hseen
  cases hseen
  exact ⟨v.bytes, rfl⟩

variable (hdigests : Set.InjOn fileName known)

include hdigests in
private theorem scene_of_none (h : Holds c place known table t) (hkey : key ∈ known)
    (hv : table.value? scope key = none) : t.scene (filed place scope key) = none := by
  by_contra hsome
  obtain ⟨sight, hseen⟩ := Option.ne_none_iff_exists'.1 hsome
  obtain ⟨key', v, hv', hname⟩ := h.only scope _ sight hseen
  obtain rfl := hdigests hkey (h.known scope key' v hv') hname
  rw [hv'] at hv
  cases hv

theorem ne_filed (name : String) : place ++ [name] ≠ filed place scope key := by
  intro heq
  have hlength := congrArg List.length heq
  simp at hlength

theorem filed_inj {scope' name : String}
    (h : place ++ [scope'] ++ [name] = filed place scope key) :
    scope' = scope ∧ name = fileName key := by
  simpa [filed] using h

private theorem eq_of_isPrefix {name : String} (h : place ++ [name] <+: place ++ [scope]) :
    name = scope := by
  have heq := h.eq_of_length (by simp)
  simpa using heq

private theorem not_isPrefix_of_two (scope' name : String) :
    ¬ place ++ [scope'] ++ [name] <+: place ++ [scope] := by
  intro hinit
  have hlength := hinit.length_le
  simp at hlength

include hdigests in
theorem put (h : Holds c place known table t) (hscope : c.Takes scope) (hkey : key ∈ known)
    (hadmits : Admits (c.directory scope) (fileName key))
    (hstores : Stores c place scope key v.bytes t t') :
    Holds c place known (table.put scope key v) t' := by
  have hbelow {scope' name : String} (hne : ¬ (scope' = scope ∧ name = fileName key)) :
      t'.scene (place ++ [scope'] ++ [name]) = t.scene (place ++ [scope'] ++ [name]) :=
    (hstores.scene _ fun heq => hne (filed_inj heq)).resolve_right
      fun hnew => not_isPrefix_of_two _ _ hnew.1
  refine ⟨hstores.distinct h.distinct, .stands hstores.root, h.accepted, ?_, ?_, ?_, ?_⟩
  · intro scope' key' v' hv'
    simp only [Table.put] at hv'
    split at hv'
    · next hsame => rwa [hsame.2]
    · exact h.known scope' key' v' hv'
  · intro scope' sight hseen
    rcases hstores.scene (place ++ [scope']) (ne_filed _) with heq | ⟨hinit, -, hdir⟩
    · exact h.scopes scope' sight (heq ▸ hseen)
    · rw [hdir] at hseen
      cases hseen
      exact ⟨rfl, eq_of_isPrefix hinit ▸ hscope⟩
  · intro scope' key' v' hv'
    simp only [Table.put] at hv'
    split at hv'
    · next hsame =>
      obtain ⟨rfl, rfl⟩ := hsame
      cases hv'
      exact ⟨hstores.file, hadmits⟩
    · next hother =>
      have hne : ¬ (scope' = scope ∧ fileName key' = fileName key) := fun hsame =>
        hother ⟨hsame.1, hdigests (h.known scope' key' v' hv') hkey hsame.2⟩
      rw [hbelow hne]
      exact h.entry scope' key' v' hv'
  · intro scope' name sight hseen
    by_cases hsame : scope' = scope ∧ name = fileName key
    · exact ⟨key, v, if_pos ⟨hsame.1, rfl⟩, hsame.2⟩
    · rw [hbelow hsame] at hseen
      obtain ⟨key', v', hv', hname⟩ := h.only scope' name sight hseen
      refine ⟨key', v', ?_, hname⟩
      have hother : ¬ (scope' = scope ∧ key' = key) := fun hboth =>
        hsame ⟨hboth.1, hname.trans (congrArg fileName hboth.2)⟩
      exact (if_neg hother).trans hv'

end Holds

/-! ## Writing and reading -/

section

variable {ρ : Type} {c : Cache} {place : Place} {known : Set String} {table : Table} {d : Desk ρ}
  {scope key : String} (hdigests : Set.InjOn fileName known)

theorem yields_writeValue (h : Holds c place known table d.files) (hscope : c.Takes scope)
    (htemporary : Admits (c.directory scope) (temporaryName key d.files.tokens))
    (hadmits : Admits (c.directory scope) (fileName key)) (v : Value) :
    Yields (c.writeValue access scope key v) d fun r d' =>
      r = .ok () ∧ Stores c place scope key v.bytes d.files d'.files := by
  cases v with
  | matched found =>
    exact yields_write_of_reaches found h.reaches (h.fits hscope) htemporary (h.scene_temporary _)
      hadmits h.plain
  | toolCalls calls =>
    exact yields_write_of_reaches calls h.reaches (h.fits hscope) htemporary (h.scene_temporary _)
      hadmits h.plain

private theorem read_of_none {t : FileTree} {dir : Path} {name : String}
    (hreaches : t.Reaches dir place) (hname : IsFileName name) (hadmits : Admits dir name)
    (hnone : t.scene (place ++ [name]) = none) : t.read (dir.entry name) = .error .notFound := by
  unfold FileTree.read FileTree.node
  rcases hreaches.cases with hopens | ⟨-, hmisses⟩
  · have hspot := (Plain.of_none hnone).spot_entry hopens hname hadmits true
    rw [hnone] at hspot
    rw [resolve_of_vacant hspot]
  · rw [resolve_of_error (hmisses.spot_entry hname hadmits.1 true)]

include hdigests in
/-- To read an entry gives the value that the table has, and changes nothing. -/
theorem yields_read?_of_holds {α : Type} [Codec α] (h : Holds c place known table d.files)
    (hscope : c.Takes scope) (hkey : key ∈ known)
    (hadmits : Admits (c.directory scope) (fileName key)) :
    Yields (c.read? access scope key : StateM (Desk ρ) (Except CacheError (Option α))) d
      fun r d' => d' = d ∧ (table.value? scope key = none → r = .ok none) ∧
        ∀ v a, table.value? scope key = some v → v.bytes = (Codec.encode a).indented.toUTF8 →
          ReadsBack a → r = .ok (some a) := by
  unfold Cache.read?
  refine (yields_read d _).bind ?_
  rintro r d' ⟨hread, rfl⟩
  have hname := isFileName_fileName key
  cases hv : table.value? scope key with
  | none =>
    have hreaches : d'.files.Reaches (c.directory scope) (place ++ [scope]) :=
      .onward h.reaches (h.fits hscope)
    have hmissing : d'.files.read (c.pathOf scope key) = .error .notFound :=
      read_of_none hreaches hname hadmits (h.scene_of_none hdigests hkey hv)
    rw [hmissing] at hread
    subst hread
    exact yields_pure ⟨rfl, fun _ => rfl, nofun⟩
  | some v =>
    have hhas := h.has hv
    have hfound : d'.files.read (c.pathOf scope key) = .ok v.bytes :=
      (read_entry_iff hname hhas.linkFree).2 hhas
    rw [hfound] at hread
    subst hread
    simp only
    have hdecoded (a : α) (hbytes : v.bytes = (Codec.encode a).indented.toUTF8)
        (hback : ReadsBack a) : decodeBytes? v.bytes = some a := hbytes ▸ hback
    cases hdecode : (decodeBytes? v.bytes : Option α) with
    | none =>
      refine yields_pure ⟨rfl, nofun, fun _ a hsame hbytes hback => ?_⟩
      cases hsame
      rw [hdecoded a hbytes hback] at hdecode
      cases hdecode
    | some found =>
      refine yields_pure ⟨rfl, nofun, fun _ a hsame hbytes hback => ?_⟩
      cases hsame
      rw [hdecoded a hbytes hback] at hdecode
      cases hdecode
      rfl

end

end StepScript.Cache
