import StepScript.Proofs.CacheListing

/-!
Histories of a cache. Whatever is written, read, listed and cleared in turn, starting with nothing
in the cache's directory, each call answers as a finite map from namespaces and keys to values does,
as long as the file system takes the paths and no two keys share a file.
-/

set_option autoImplicit false
set_option relaxedAutoImplicit false

namespace StepScript.Cache

open FileTree Desk Json

def Call.key? : Call → Option String
  | .write _ key _ | .readMatch _ key | .readToolCalls _ key => some key
  | .list _ | .clear _ => none

/-- The file system takes the paths of a call, if its token is one from a range. -/
def Call.Passes (c : Cache) (first last : Nat) : Call → Prop
  | .write scope key _ => c.Takes scope ∧ Admits (c.directory scope) (fileName key) ∧
    ∀ n, first ≤ n → n < last → Admits (c.directory scope) (temporaryName key n)
  | .readMatch scope key | .readToolCalls scope key =>
    c.Takes scope ∧ Admits (c.directory scope) (fileName key)
  | .list only | .clear only => ∀ scope, only = some scope → c.Takes scope

inductive Table.AnswersAll (c : Cache) : Table → List Call → List Reply → Prop
  | nil (table : Table) : AnswersAll c table [] []
  | cons {table : Table} {call : Call} {reply : Reply} {calls : List Call} {replies : List Reply} :
      table.Answers c call reply → AnswersAll c (table.after call) calls replies →
      AnswersAll c table (call :: calls) (reply :: replies)

/-- Nothing is in the directory of a cache, whether it stands or is still to be made. -/
structure Vacant (c : Cache) (place : Place) (t : FileTree) : Prop where
  reaches : t.Reaches c.root place
  accepted : refusal? c.root.text = none
  nothing : ∀ name, t.scene (place ++ [name]) = none

variable {ρ : Type} {c : Cache} {place : Place} {known : Set String} {table : Table} {d : Desk ρ}

private theorem Vacant.holds {t : FileTree} (h : c.Vacant place t) (hdistinct : t.Distinct) :
    Holds c place known .empty t where
  distinct := hdistinct
  reaches := h.reaches
  accepted := h.accepted
  known _ _ _ hv := nomatch hv
  scopes scope sight hseen := by
    rw [h.nothing scope] at hseen
    cases hseen
  entry _ _ _ hv := nomatch hv
  only scope name sight hseen := by
    rw [scene_eq_none_of_above (h.nothing scope) name] at hseen
    cases hseen

private theorem yields_carryOut (hdigests : Set.InjOn fileName known) {first last : Nat}
    {call : Call} (h : Holds c place known table d.files) (hpasses : call.Passes c first last)
    (hknown : ∀ key, call.key? = some key → key ∈ known) (hfirst : first ≤ d.files.tokens)
    (hlast : d.files.tokens < last) :
    Yields (c.carryOut access call) d fun reply d' => table.Answers c call reply ∧
      Holds c place known (table.after call) d'.files ∧
        d.files.tokens ≤ d'.files.tokens ∧ d'.files.tokens ≤ d.files.tokens + 1 := by
  cases call with
  | write scope key v =>
    obtain ⟨hscope, hadmits, htemporary⟩ := hpasses
    refine (yields_writeValue h hscope (htemporary _ hfirst hlast) hadmits v).bind ?_
    rintro _ d' ⟨rfl, hstores⟩
    have htokens := hstores.tokens
    exact yields_pure ⟨rfl, h.put hdigests hscope (hknown key rfl) hadmits hstores, by omega,
      by omega⟩
  | readMatch scope key =>
    obtain ⟨hscope, hadmits⟩ := hpasses
    refine (yields_read?_of_holds hdigests h hscope (hknown key rfl) hadmits).bind ?_
    rintro r d' ⟨rfl, hnone, hsome⟩
    refine yields_pure ⟨⟨hnone, fun found hv => ?_⟩, h, le_rfl, Nat.le_succ _⟩
    exact hsome _ found hv rfl found.readsBack
  | readToolCalls scope key =>
    obtain ⟨hscope, hadmits⟩ := hpasses
    refine (yields_read?_of_holds hdigests h hscope (hknown key rfl) hadmits).bind ?_
    rintro r d' ⟨rfl, hnone, hsome⟩
    refine yields_pure ⟨⟨hnone, fun calls hv => ?_⟩, h, le_rfl, Nat.le_succ _⟩
    exact hsome _ calls hv rfl (ToolCall.readsBack calls)
  | list only =>
    refine (yields_list h hpasses).bind ?_
    rintro _ d' ⟨rfl, entries, rfl, hascending, hmem⟩
    obtain ⟨sites, hshows, hnodup, hsites⟩ := exists_sites hascending (h.pathOf_inj hdigests) hmem
    exact yields_pure ⟨⟨entries, sites, rfl, hshows, hnodup, hsites, hascending⟩, h, le_rfl,
      Nat.le_succ _⟩
  | clear only =>
    refine (yields_clear hdigests h hpasses).bind ?_
    rintro _ d' ⟨rfl, htokens, hholds⟩
    exact yields_pure ⟨rfl, hholds, by omega, by omega⟩

private theorem yields_mapM_carryOut (hdigests : Set.InjOn fileName known) {first last : Nat}
    {calls : List Call} (h : Holds c place known table d.files)
    (hpasses : ∀ call ∈ calls, call.Passes c first last)
    (hknown : ∀ call ∈ calls, ∀ key, call.key? = some key → key ∈ known)
    (hfirst : first ≤ d.files.tokens) (hlast : d.files.tokens + calls.length ≤ last) :
    Yields (calls.mapM (c.carryOut access)) d fun replies _ =>
      table.AnswersAll c calls replies := by
  -- After each call the tree holds what the table has then, and at most one more token is used.
  induction calls generalizing table d with
  | nil => exact yields_pure (.nil table)
  | cons call calls ih =>
    rw [List.length_cons] at hlast
    rw [List.mapM_cons]
    have hcall := List.mem_cons_self (a := call) (l := calls)
    refine (yields_carryOut hdigests h (hpasses call hcall) (hknown call hcall) hfirst
      (by omega)).bind ?_
    rintro reply d₁ ⟨hanswers, hholds, hle, hge⟩
    refine (ih hholds (fun other hother => hpasses other (List.mem_cons_of_mem _ hother))
      (fun other hother => hknown other (List.mem_cons_of_mem _ hother)) (hfirst.trans hle)
      (by omega)).bind ?_
    intro replies d₂ hall
    exact yields_pure (.cons hanswers hall)

/-- A cache with nothing in it answers every history of calls as a finite map does. -/
theorem history_answers_as_table {calls : List Call} (hvacant : c.Vacant place d.files)
    (hdistinct : d.files.Distinct)
    (hpasses : ∀ call ∈ calls,
      call.Passes c d.files.tokens (d.files.tokens + calls.length))
    (hdigests : Set.InjOn Digest.Blake3.hexHash {key | ∃ call ∈ calls, call.key? = some key}) :
    Table.empty.AnswersAll c calls ((calls.mapM (c.carryOut access)).run d).1 := by
  have hfiles : Set.InjOn fileName {key | ∃ call ∈ calls, call.key? = some key} :=
    fun key hkey key' hkey' hsame => hdigests hkey hkey' (hexHash_of_fileName hsame)
  exact yields_mapM_carryOut hfiles (hvacant.holds hdistinct) hpasses
    (fun call hcall key hkey => ⟨call, hcall, hkey⟩) le_rfl le_rfl

private def shelf : Cache := ⟨⟨"/shelf"⟩⟩

private def bareDesk : Desk Unit := ⟨⟨.directory [], [], 0⟩, ()⟩

private def visits : List Call :=
  [.write "steps" "open" (.matched ⟨"When I open", .empty⟩), .write "llm" "close" (.toolCalls []),
    .readMatch "steps" "open", .list none, .clear (some "steps"), .readMatch "steps" "open",
    .readToolCalls "llm" "close"]

private theorem reaches_shelf : bareDesk.files.Reaches shelf.root ["shelf"] := by
  have hnames : Path.names ⟨"/"⟩ = [] := by decide
  have hopens : bareDesk.files.Opens ⟨"/"⟩ [] := ⟨[], rfl, .here (by rw [hnames]; rfl) rfl⟩
  have hname : IsFileName "shelf" := by decide
  have hroot : shelf.root = Path.entry ⟨"/"⟩ "shelf" := by decide
  rw [hroot]
  exact .onward (.stands hopens) ⟨hname, by decide, .inl rfl⟩

private theorem vacant_shelf : shelf.Vacant ["shelf"] bareDesk.files :=
  ⟨reaches_shelf, by decide, fun _ => rfl⟩

private theorem distinct_bareDesk : bareDesk.files.Distinct :=
  FileNode.isBare_empty.distinct

private theorem takes_shelf {scope : String} (h : scope = "steps" ∨ scope = "llm") :
    shelf.Takes scope := by
  rcases h with rfl | rfl
  · exact ⟨by decide, by decide, by decide⟩
  · exact ⟨by decide, by decide, by decide⟩

private theorem passes_visits : ∀ call ∈ visits, call.Passes shelf bareDesk.files.tokens
    (bareDesk.files.tokens + visits.length) := by
  have hlast : bareDesk.files.tokens + visits.length = 7 := rfl
  have htoken (n : Nat) (hn : n < 7) : (Nat.toDigits 16 n).length ≤ tokenLength := by
    rw [Nat.toDigits_of_lt_base (by omega), List.length_singleton]
    decide
  have hsteps := takes_shelf (.inl rfl : "steps" = "steps" ∨ "steps" = "llm")
  have hllm := takes_shelf (.inr rfl : "llm" = "steps" ∨ "llm" = "llm")
  have hopen : Admits (shelf.directory "steps") (fileName "open") :=
    hsteps.admits_fileName (by decide)
  have hclose : Admits (shelf.directory "llm") (fileName "close") :=
    hllm.admits_fileName (by decide)
  rw [hlast]
  intro call hcall
  simp only [visits, List.mem_cons, List.not_mem_nil, or_false] at hcall
  rcases hcall with rfl | rfl | rfl | rfl | rfl | rfl | rfl
  · exact ⟨hsteps, hopen, fun n _ hn => hsteps.admits_temporaryName (htoken n hn) (by decide)⟩
  · exact ⟨hllm, hclose, fun n _ hn => hllm.admits_temporaryName (htoken n hn) (by decide)⟩
  · exact ⟨hsteps, hopen⟩
  · exact nofun
  · rintro scope ⟨⟩
    exact hsteps
  · exact ⟨hsteps, hopen⟩
  · exact ⟨hllm, hclose⟩

set_option maxRecDepth 20000 in
private theorem injOn_visits :
    Set.InjOn Digest.Blake3.hexHash {key | ∃ call ∈ visits, call.key? = some key} := by
  have hne : Digest.Blake3.hexHash "open" ≠ Digest.Blake3.hexHash "close" := by decide +kernel
  have hkey (key : String) (h : ∃ call ∈ visits, call.key? = some key) :
      key = "open" ∨ key = "close" := by
    obtain ⟨call, hcall, hkey⟩ := h
    simp only [visits, List.mem_cons, List.not_mem_nil, or_false] at hcall
    rcases hcall with rfl | rfl | rfl | rfl | rfl | rfl | rfl <;> simp_all [Call.key?]
  intro key h key' h' hsame
  rcases hkey key h with rfl | rfl <;> rcases hkey key' h' with rfl | rfl
  · rfl
  · exact absurd hsame hne
  · exact absurd hsame.symm hne
  · rfl

theorem visits_answered_as_table :
    Table.empty.AnswersAll shelf visits ((visits.mapM (shelf.carryOut access)).run bareDesk).1 :=
  history_answers_as_table vacant_shelf distinct_bareDesk passes_visits injOn_visits

end StepScript.Cache
