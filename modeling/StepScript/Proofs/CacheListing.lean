import Mathlib.Data.List.Nodup
import StepScript.Proofs.CacheTable
import StepScript.Proofs.PathOrder

/-!
Listing and clearing a cache. In a tree that holds a table, a listing shows each site of the table
that it is about once, in the order of their paths; clearing removes just these files, so that the
tree holds what is left of the table.
-/

set_option autoImplicit false
set_option relaxedAutoImplicit false

namespace StepScript

open FileTree

namespace FileTree

variable {t : FileTree} {dir : Path}

private theorem Misses.spot_ne_standing (h : t.Misses dir) (place : Place) :
    t.spot true dir ≠ .ok (.standing place) := by
  obtain ⟨start, horigin, hdead⟩ := h
  have hnames : t.scene.settle true linkLimit start dir.names ≠ .ok (.standing place) := by
    intro hstanding
    rw [hstanding] at hdead
    cases hdead
  intro hspot
  unfold spot at hspot
  rw [horigin] at hspot
  split at hspot
  · cases hspot
  · rcases piecesOf_text dir with hpieces | hpieces
    · rw [hpieces] at hspot
      exact hnames hspot
    · rw [hpieces] at hspot
      simp only [Scene.settle_append_of_dead hdead] at hspot
      cases hspot

private theorem kind?_of_misses (h : t.Misses dir) : t.kind? dir = none := by
  unfold kind?
  cases hnode : t.node true dir with
  | error e => rfl
  | ok found => exact absurd (node_eq_ok_iff.1 hnode).1 (h.spot_ne_standing found.1)

end FileTree

namespace Cache

open Desk

/-! ## Looking through namespaces -/

variable {ρ : Type} {c : Cache} {place : Place} {known : Set String} {table : Table} {d : Desk ρ}
  {only : Option String}

private theorem yields_isDirectory_of_misses {dir : Path} (h : d.files.Misses dir) :
    Yields (access.isDirectory dir) d fun r d' => r = false ∧ d' = d := by
  refine ⟨?_, rfl⟩
  change (d.files.kind? dir == some .directory) = false
  rw [kind?_of_misses h]
  rfl

private theorem yields_scopes_of_some {scope : String} (h : Holds c place known table d.files)
    (htakes : c.Takes scope) :
    Yields (c.scopes access (some scope)) d fun r d' => d' = d ∧ ∃ names, r = .ok names ∧
      names.Nodup ∧ ∀ name, name ∈ names ↔
        scope = name ∧ d.files.scene (place ++ [name]) = some .directory := by
  unfold scopes
  simp only
  rcases (h.fits htakes).clear with hnone | hdir
  · have hmisses := (Reaches.onward h.reaches (h.fits htakes)).misses hnone
    refine (yields_isDirectory_of_misses hmisses).bind ?_
    rintro _ _ ⟨rfl, rfl⟩
    refine yields_pure ⟨rfl, [], rfl, List.nodup_nil, fun name => ?_⟩
    simp only [List.not_mem_nil, false_iff]
    rintro ⟨rfl, hdir⟩
    rw [hnone] at hdir
    cases hdir
  · refine (yields_isDirectory_of_opens (h.opens_directory hdir) htakes.accepted).bind ?_
    rintro _ _ ⟨rfl, rfl⟩
    refine yields_pure ⟨rfl, [scope], rfl, List.nodup_singleton scope, fun name => ?_⟩
    rw [List.mem_singleton]
    constructor
    · rintro rfl
      exact ⟨rfl, hdir⟩
    · exact fun hname => hname.1.symm

private theorem mem_directories {found : List DirEntry} {names : List String}
    (h : Holds c place known table d.files)
    (hmem : ∀ e, e ∈ found ↔ ∃ name sight, d.files.scene (place ++ [name]) = some sight ∧
      e = sight.shown name)
    (hperm : names.Perm ((found.filter fun e => e.kind == .directory).map DirEntry.name))
    (name : String) :
    name ∈ names ↔ d.files.scene (place ++ [name]) = some .directory := by
  simp only [hperm.mem_iff, List.mem_map, List.mem_filter, hmem]
  constructor
  · rintro ⟨e, ⟨⟨name', sight, hseen, rfl⟩, -⟩, rfl⟩
    rw [← (h.scopes name' sight hseen).1]
    exact hseen
  · intro hdir
    exact ⟨Sight.directory.shown name, ⟨⟨name, _, hdir, rfl⟩, rfl⟩, rfl⟩

private theorem yields_scopes_of_none (h : Holds c place known table d.files) :
    Yields (c.scopes access none) d fun r d' => d' = d ∧ ∃ names, r = .ok names ∧ names.Nodup ∧
      ∀ name, name ∈ names ↔ d.files.scene (place ++ [name]) = some .directory := by
  unfold scopes
  simp only
  rcases h.reaches.cases with hopens | ⟨hnone, hmisses⟩
  · obtain ⟨found, hfound, hnodup, hmem⟩ := entries_of_opens h.distinct hopens h.accepted
    refine (yields_isDirectory_of_opens hopens h.accepted).bind ?_
    rintro _ d' ⟨rfl, rfl⟩
    have hentries : Yields (access.entries c.root) d' fun r d'' => r = .ok found ∧ d'' = d' :=
      ⟨hfound, rfl⟩
    refine hentries.bind ?_
    rintro _ _ ⟨rfl, rfl⟩
    have hperm := List.mergeSort_perm ((found.filter fun e => e.kind == .directory).map
      DirEntry.name) fun a b => decide (a ≤ b)
    refine yields_pure ⟨rfl, _, rfl, ?_, mem_directories h hmem hperm⟩
    exact hperm.nodup_iff.2 (hnodup.sublist (List.filter_sublist.map _))
  · refine (yields_isDirectory_of_misses hmisses).bind ?_
    rintro _ _ ⟨rfl, rfl⟩
    refine yields_pure ⟨rfl, [], rfl, List.nodup_nil, fun name => ?_⟩
    simp [scene_eq_none_of_above hnone name]

private theorem yields_scopes (h : Holds c place known table d.files)
    (honly : ∀ scope, only = some scope → c.Takes scope) :
    Yields (c.scopes access only) d fun r d' => d' = d ∧ ∃ names, r = .ok names ∧ names.Nodup ∧
      ∀ scope, scope ∈ names ↔
        covers only scope = true ∧ d.files.scene (place ++ [scope]) = some .directory := by
  cases only with
  | some scope =>
    simp only [covers, Option.all_some, beq_iff_eq]
    exact yields_scopes_of_some h (honly scope rfl)
  | none =>
    simp only [covers, Option.all_none, true_and]
    exact yields_scopes_of_none h

/-! ## Listing -/

private theorem extension_pathOf (c : Cache) (scope key : String) :
    (c.pathOf scope key).extension = some "json" := by
  have hname : (c.pathOf scope key).fileName = some (fileName key) :=
    Path.fileName_entry _ (isFileName_fileName key)
  rw [Path.extension, hname, Option.bind_some, cutExtension_fileName]

private theorem parts_pathOf_inj {scope scope' key key' : String} (hscope : IsFileName scope)
    (hscope' : IsFileName scope')
    (h : (c.pathOf scope key).parts = (c.pathOf scope' key').parts) :
    scope = scope' ∧ fileName key = fileName key' := by
  unfold pathOf directory at h
  exact Path.parts_entry_entry_inj c.root hscope hscope' (isFileName_fileName key)
    (isFileName_fileName key') h

private theorem entriesOf_of_holds {t : FileTree} {scope : String} {found : List DirEntry}
    (h : Holds c place known table t) (hnodup : (found.map DirEntry.name).Nodup)
    (hmem : ∀ e, e ∈ found ↔ ∃ name sight, t.scene (place ++ [scope] ++ [name]) = some sight ∧
      e = sight.shown name) :
    ((c.entriesOf scope found).map fun e => e.path.parts).Nodup ∧
      ∀ e, e ∈ c.entriesOf scope found ↔
        ∃ key v, table.value? scope key = some v ∧ e = c.shown scope key v := by
  have hfound (e : DirEntry) : e ∈ found ↔ ∃ key v, table.value? scope key = some v ∧
      e = (Sight.file v.bytes).shown (fileName key) := by
    rw [hmem]
    constructor
    · rintro ⟨name, sight, hseen, rfl⟩
      obtain ⟨key, v, hv, rfl⟩ := h.only scope name sight hseen
      rw [(h.entry scope key v hv).1] at hseen
      cases hseen
      exact ⟨key, v, hv, rfl⟩
    · rintro ⟨key, v, hv, rfl⟩
      exact ⟨fileName key, _, (h.entry scope key v hv).1, rfl⟩
  constructor
  · have hparts : (found.map fun e => ((c.directory scope).entry e.name).parts).Nodup := by
      rw [List.nodup_map_iff_inj_on (List.Nodup.of_map _ hnodup)]
      intro e he e' he' hsame
      obtain ⟨key, v, -, hshown⟩ := (hfound e).1 he
      obtain ⟨key', v', -, hshown'⟩ := (hfound e').1 he'
      refine List.inj_on_of_nodup_map hnodup he he' ?_
      rw [hshown, hshown'] at hsame ⊢
      have hname := isFileName_fileName key
      have hname' := isFileName_fileName key'
      simp only [Sight.shown, Path.parts_entry _ hname, Path.parts_entry _ hname'] at hsame
      simpa [Sight.shown] using List.append_cancel_left hsame
    unfold entriesOf
    refine List.Nodup.sublist (List.filter_sublist.map _) ?_
    rw [List.map_map]
    exact hparts
  · intro e
    unfold entriesOf
    simp only [List.mem_filter, List.mem_map, hfound]
    constructor
    · rintro ⟨⟨e', ⟨key, v, hv, rfl⟩, rfl⟩, -⟩
      exact ⟨key, v, hv, fileOf_shown c scope key v⟩
    · rintro ⟨key, v, hv, rfl⟩
      refine ⟨⟨_, ⟨key, v, hv, rfl⟩, fileOf_shown c scope key v⟩, ?_⟩
      rw [beq_iff_eq, shown_path, extension_pathOf]

private theorem yields_entriesIn (h : Holds c place known table d.files) {names : List String}
    (hnodup : names.Nodup)
    (hnames : ∀ scope ∈ names, d.files.scene (place ++ [scope]) = some .directory) :
    Yields (c.entriesIn access names) d fun r d' => d' = d ∧ ∃ entries, r = .ok entries ∧
      (entries.map fun e => e.path.parts).Nodup ∧ ∀ e, e ∈ entries ↔
        ∃ scope ∈ names, ∃ key v, table.value? scope key = some v ∧ e = c.shown scope key v := by
  induction names with
  | nil => exact yields_pure ⟨rfl, [], rfl, List.nodup_nil, by simp⟩
  | cons scope rest ih =>
    obtain ⟨hscope, hrest⟩ := List.nodup_cons.1 hnodup
    have hdir := hnames scope List.mem_cons_self
    have htakes := (h.scopes scope _ hdir).2
    obtain ⟨found, hfound, hdistinct, hmem⟩ :=
      entries_of_opens h.distinct (h.opens_directory hdir) htakes.accepted
    obtain ⟨hparts, hentries⟩ := entriesOf_of_holds h hdistinct hmem
    have hlisted : Yields (access.entries (c.directory scope)) d
        fun r d' => r = .ok found ∧ d' = d := ⟨hfound, rfl⟩
    unfold entriesIn
    refine hlisted.bind ?_
    rintro _ d' ⟨rfl, rfl⟩
    refine (ih hrest fun name hname => hnames name (List.mem_cons_of_mem _ hname)).bind ?_
    rintro _ d' ⟨rfl, more, rfl, hmore, hmem'⟩
    refine yields_pure ⟨rfl, _, rfl, ?_, fun e => ?_⟩
    · rw [List.map_append, List.nodup_append]
      refine ⟨hparts, hmore, ?_⟩
      rintro parts hleft _ hright rfl
      obtain ⟨e, he, rfl⟩ := List.mem_map.1 hleft
      obtain ⟨e', he', hsame⟩ := List.mem_map.1 hright
      obtain ⟨key, v, -, rfl⟩ := (hentries e).1 he
      obtain ⟨scope', hscope', key', v', -, rfl⟩ := (hmem' e').1 he'
      have htakes' := (h.scopes scope' _ (hnames scope' (List.mem_cons_of_mem _ hscope'))).2
      rw [shown_path, shown_path] at hsame
      have hboth := parts_pathOf_inj htakes'.isFileName htakes.isFileName hsame
      exact hscope (hboth.1 ▸ hscope')
    · simp only [List.mem_append, hentries, hmem', List.mem_cons, exists_eq_or_imp]

/-- A listing has the entries that the table has, in strictly ascending order. -/
theorem yields_list (h : Holds c place known table d.files)
    (honly : ∀ scope, only = some scope → c.Takes scope) :
    Yields (c.list access only) d fun r d' => d' = d ∧ ∃ entries, r = .ok entries ∧
      (entries.Pairwise fun a b => a.path.before b.path = true) ∧
        ∀ e, e ∈ entries ↔ ∃ scope key v, covers only scope = true ∧
          table.value? scope key = some v ∧ e = c.shown scope key v := by
  unfold Cache.list
  refine (yields_scopes h honly).bind ?_
  rintro _ d' ⟨rfl, names, rfl, hnodup, hnames⟩
  refine (yields_entriesIn h hnodup fun scope hscope => ((hnames scope).1 hscope).2).bind ?_
  rintro _ d' ⟨rfl, entries, rfl, hparts, hmem⟩
  refine yields_pure ⟨rfl, _, rfl, Path.pairwise_before_mergeSort CacheEntry.path hparts, ?_⟩
  intro e
  rw [(List.mergeSort_perm entries _).mem_iff, hmem]
  constructor
  · rintro ⟨scope, hscope, key, v, hv, rfl⟩
    exact ⟨scope, key, v, ((hnames scope).1 hscope).1, hv, rfl⟩
  · rintro ⟨scope, key, v, hcovers, hv, rfl⟩
    have hdir := FileNode.scene_isDirectory (h.entry scope key v hv).1
    exact ⟨scope, (hnames scope).2 ⟨hcovers, hdir⟩, key, v, hv, rfl⟩

private theorem Path.before_irrefl (p : Path) : p.before p = false := by
  rw [← Bool.not_eq_true, Path.before_iff]
  exact lt_irrefl p.ranks

theorem exists_sites {entries : List CacheEntry}
    (hascending : entries.Pairwise fun a b => a.path.before b.path = true)
    (hinj : ∀ a ∈ table.live, ∀ b ∈ table.live, c.pathOf a.1 a.2 = c.pathOf b.1 b.2 → a = b)
    (hmem : ∀ e, e ∈ entries ↔ ∃ scope key v, covers only scope = true ∧
      table.value? scope key = some v ∧ e = c.shown scope key v) :
    ∃ sites, List.Forall₂ (table.Shows c) entries sites ∧ sites.Nodup ∧
      sites.toFinset = table.covered only := by
  have hlive {site : String × String} {v : Value} (hv : table.value? site.1 site.2 = some v) :
      site ∈ table.live := (table.mem_live site.1 site.2).2 (by rw [hv]; rfl)
  have hsite : ∀ e ∈ entries, ∃ site, table.Shows c e site := by
    intro e he
    obtain ⟨scope, key, v, -, hv, rfl⟩ := (hmem e).1 he
    exact ⟨(scope, key), v, hv, rfl⟩
  choose! siteOf hshows using hsite
  have hpath : ∀ e ∈ entries, c.pathOf (siteOf e).1 (siteOf e).2 = e.path := by
    intro e he
    obtain ⟨v, -, hshown⟩ := hshows e he
    exact (shown_path _ _ _ _).symm.trans (congrArg CacheEntry.path hshown).symm
  have hnodup : (entries.map CacheEntry.path).Nodup := by
    refine List.pairwise_map.2 (hascending.imp fun {a b} hbefore hsame => ?_)
    rw [hsame, Path.before_irrefl] at hbefore
    cases hbefore
  refine ⟨entries.map siteOf, ?_, ?_, ?_⟩
  · rw [List.forall₂_map_right_iff, List.forall₂_same]
    exact hshows
  · refine List.Nodup.of_map (fun site => c.pathOf site.1 site.2) ?_
    have hmap : entries.map ((fun site => c.pathOf site.1 site.2) ∘ siteOf) =
        entries.map CacheEntry.path := by
      refine List.map_congr_left fun e he => ?_
      rw [Function.comp_apply, hpath e he]
    rwa [List.map_map, hmap]
  · ext site
    simp only [List.mem_toFinset, List.mem_map, Table.covered, Finset.mem_filter]
    constructor
    · rintro ⟨e, he, rfl⟩
      obtain ⟨v, hv, hshown⟩ := hshows e he
      obtain ⟨scope, key, v', hcovers, -, rfl⟩ := (hmem e).1 he
      refine ⟨hlive hv, ?_⟩
      have hscope : scope = (siteOf (c.shown scope key v')).1 := congrArg CacheEntry.scope hshown
      rwa [← hscope]
    · rintro ⟨hsite, hcovers⟩
      obtain ⟨v, hv⟩ := Option.isSome_iff_exists.1 ((table.mem_live site.1 site.2).1 hsite)
      have he := (hmem (c.shown site.1 site.2 v)).2 ⟨site.1, site.2, v, hcovers, hv, rfl⟩
      obtain ⟨v', hv', -⟩ := hshows _ he
      have hsame := hpath _ he
      rw [shown_path] at hsame
      exact ⟨_, he, hinj _ (hlive hv') _ hsite hsame⟩

/-! ## Clearing -/

namespace Table

private def erase (table : Table) (site : String × String) : Table where
  value? scope key := if (scope, key) = site then none else table.value? scope key
  live := table.live.erase site
  mem_live scope key := by
    rw [Finset.mem_erase, table.mem_live]
    split
    · next h => simp [h]
    · next h => simp [h]

end Table

namespace Holds

variable {t t' : FileTree} {site : String × String}

private theorem congr {table' : Table} (h : Holds c place known table t)
    (hvalues : ∀ scope key, table'.value? scope key = table.value? scope key) :
    Holds c place known table' t := by
  refine ⟨h.distinct, h.reaches, h.accepted, ?_, h.scopes, ?_, ?_⟩
  · intro scope key v hv
    exact h.known scope key v (hvalues scope key ▸ hv)
  · intro scope key v hv
    exact h.entry scope key v (hvalues scope key ▸ hv)
  · intro scope name sight hseen
    obtain ⟨key, v, hv, hname⟩ := h.only scope name sight hseen
    exact ⟨key, v, (hvalues scope key).trans hv, hname⟩

variable (hdigests : Set.InjOn fileName known)

include hdigests in
/-- Different sites have different files. -/
theorem pathOf_inj (h : Holds c place known table t) :
    ∀ a ∈ table.live, ∀ b ∈ table.live, c.pathOf a.1 a.2 = c.pathOf b.1 b.2 → a = b := by
  have hsite (a : String × String) (ha : a ∈ table.live) : IsFileName a.1 ∧ a.2 ∈ known := by
    obtain ⟨v, hv⟩ := Option.isSome_iff_exists.1 ((table.mem_live a.1 a.2).1 ha)
    have hdir := FileNode.scene_isDirectory (h.entry a.1 a.2 v hv).1
    exact ⟨(h.scopes a.1 _ hdir).2.isFileName, h.known a.1 a.2 v hv⟩
  intro a ha b hb hsame
  obtain ⟨hscope, hkey⟩ := hsite a ha
  obtain ⟨hscope', hkey'⟩ := hsite b hb
  have hboth := parts_pathOf_inj hscope hscope' (congrArg Path.parts hsame)
  exact Prod.ext hboth.1 (hdigests hkey hkey' hboth.2)

include hdigests in
private theorem erase (h : Holds c place known table t) (hsite : site ∈ table.live)
    (hdistinct : t.Distinct → t'.Distinct)
    (halters : t.Alters (c.directory site.1) (fileName site.2) none t') :
    Holds c place known (table.erase site) t' := by
  obtain ⟨v₀, hv₀⟩ := Option.isSome_iff_exists.1 ((table.mem_live site.1 site.2).1 hsite)
  have hdir := FileNode.scene_isDirectory (h.entry site.1 site.2 v₀ hv₀).1
  have hscene := halters.scene_set (h.opens_directory hdir)
  have hkept {scope key : String} {v : Value} (hv : (table.erase site).value? scope key = some v) :
      (scope, key) ≠ site ∧ table.value? scope key = some v := by
    simp only [Table.erase] at hv
    split at hv
    · cases hv
    · next hne => exact ⟨hne, hv⟩
  refine ⟨hdistinct h.distinct, .stands (halters.opens (h.opens_root hdir)), h.accepted, ?_, ?_,
    ?_, ?_⟩
  · exact fun scope key v hv => h.known scope key v (hkept hv).2
  · intro scope sight hseen
    rw [hscene, Scene.set_of_ne _ _ (ne_filed _)] at hseen
    exact h.scopes scope sight hseen
  · intro scope key v hv
    obtain ⟨hne, hold⟩ := hkept hv
    rw [hscene, Scene.set_of_ne]
    · exact h.entry scope key v hold
    · intro heq
      obtain ⟨hscope, hname⟩ := filed_inj heq
      have hkey := hdigests (h.known scope key v hold) (h.known site.1 site.2 _ hv₀) hname
      exact hne (Prod.ext hscope hkey)
  · intro scope name sight hseen
    rw [hscene] at hseen
    by_cases hfile : place ++ [scope] ++ [name] = filed place site.1 site.2
    · rw [hfile, Scene.set_same] at hseen
      cases hseen
    · rw [Scene.set_of_ne _ _ hfile] at hseen
      obtain ⟨key, v, hv, rfl⟩ := h.only scope name sight hseen
      refine ⟨key, v, (if_neg fun hsame => hfile ?_).trans hv, rfl⟩
      rw [← hsame]

end Holds

private theorem yields_removeAll (hdigests : Set.InjOn fileName known) {entries : List CacheEntry}
    {sites : List (String × String)} (h : Holds c place known table d.files)
    (hpaths : List.Forall₂ (fun e site => e.path = c.pathOf site.1 site.2) entries sites)
    (hnodup : sites.Nodup) (hlive : ∀ site ∈ sites, site ∈ table.live) :
    Yields (removeAll access entries) d fun r d' => r = .ok () ∧
      d'.files.tokens = d.files.tokens ∧ ∃ table' : Table, Holds c place known table' d'.files ∧
        ∀ scope key, table'.value? scope key =
          if (scope, key) ∈ sites then none else table.value? scope key := by
  induction hpaths generalizing table d with
  | nil => exact yields_pure ⟨rfl, rfl, table, h, by simp⟩
  | @cons e site entries sites hpath hrest ih =>
    obtain ⟨hsite, hsites⟩ := List.nodup_cons.1 hnodup
    have hhere := hlive site List.mem_cons_self
    obtain ⟨v, hv⟩ := Option.isSome_iff_exists.1 ((table.mem_live site.1 site.2).1 hhere)
    unfold removeAll
    rw [hpath]
    refine (yields_remove_of_has (h.has hv) (isFileName_fileName site.2)).bind ?_
    rintro _ d₁ ⟨rfl, halters, hdistinct⟩
    have hleft : ∀ other ∈ sites, other ∈ (table.erase site).live := by
      intro other hother
      refine Finset.mem_erase.2 ⟨?_, hlive other (List.mem_cons_of_mem _ hother)⟩
      rintro rfl
      exact hsite hother
    refine (ih (h.erase hdigests hhere hdistinct halters) hsites hleft).mono ?_
    rintro _ d₂ ⟨rfl, htokens, table', hholds, hvalues⟩
    refine ⟨rfl, htokens.trans halters.tokens, table', hholds, fun scope key => ?_⟩
    rw [hvalues]
    by_cases hsame : (scope, key) = site
    · simp [Table.erase, hsame]
    · simp [Table.erase, hsame]

theorem yields_clear (hdigests : Set.InjOn fileName known) (h : Holds c place known table d.files)
    (honly : ∀ scope, only = some scope → c.Takes scope) :
    Yields (c.clear access only) d fun r d' => r = .ok (table.covered only).card ∧
      d'.files.tokens = d.files.tokens ∧ Holds c place known (table.drop only) d'.files := by
  unfold clear
  refine (yields_list h honly).bind ?_
  rintro _ d' ⟨rfl, entries, rfl, hascending, hmem⟩
  obtain ⟨sites, hshows, hnodup, hsites⟩ := exists_sites hascending (h.pathOf_inj hdigests) hmem
  have hcovered (site : String × String) : site ∈ sites ↔ site ∈ table.covered only := by
    rw [← hsites, List.mem_toFinset]
  have hlive : ∀ site ∈ sites, site ∈ table.live := fun site hsite =>
    (Finset.mem_filter.1 ((hcovered site).1 hsite)).1
  have hpaths : List.Forall₂ (fun e site => e.path = c.pathOf site.1 site.2) entries sites := by
    refine hshows.imp fun e site hshow => ?_
    obtain ⟨v, -, rfl⟩ := hshow
    exact shown_path _ _ _ _
  refine (yields_removeAll hdigests h hpaths hnodup hlive).bind ?_
  rintro _ d₁ ⟨rfl, htokens, table', hholds, hvalues⟩
  refine yields_pure ⟨?_, htokens, hholds.congr fun scope key => ?_⟩
  · rw [← hsites, List.toFinset_card_of_nodup hnodup, hshows.length_eq]
  · rw [hvalues]
    simp only [Table.drop, hcovered, Table.covered, Finset.mem_filter, table.mem_live]
    cases table.value? scope key <;> simp

end Cache
end StepScript
