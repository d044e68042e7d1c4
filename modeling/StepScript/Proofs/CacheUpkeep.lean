import StepScript.Proofs.DirectoryMaking

/-!
Entries of a cache in a tree where nothing keeps the cache from its files. A file can be made where
nothing stands in its way, a file that is there can be written, moved and removed, and so a write of
an entry leaves its bytes in place and no temporary file behind.
-/

set_option autoImplicit false
set_option relaxedAutoImplicit false

namespace StepScript

open FileTree

/-! ## Files that nothing stands in the way of -/

namespace FileTree

variable {t t' : FileTree} {dir : Path} {name : String} {place : Place} {bytes : ByteArray}

/-- A file stands under a name, or nothing. -/
def Plain (t : FileTree) (place : Place) (name : String) : Prop :=
  ∀ sight, t.scene (place ++ [name]) = some sight → ∃ bytes, sight = .file bytes

theorem Plain.of_none (h : t.scene (place ++ [name]) = none) : t.Plain place name := by
  intro sight hseen
  rw [h] at hseen
  cases hseen

private theorem Plain.of_file (h : t.scene (place ++ [name]) = some (.file bytes)) :
    t.Plain place name := by
  intro sight hseen
  rw [h] at hseen
  cases hseen
  exact ⟨bytes, rfl⟩

private theorem Plain.linkFree (h : t.Plain place name) (hopens : t.Opens dir place) :
    t.LinkFree dir name := by
  intro directory hopens' target hseen
  obtain rfl := hopens'.unique hopens
  obtain ⟨bytes, hbytes⟩ := h _ hseen
  cases hbytes

theorem Plain.spot_entry (h : t.Plain place name) (hopens : t.Opens dir place)
    (hname : IsFileName name) (hadmits : Admits dir name) (follow : Bool) :
    t.spot follow (dir.entry name) = if (t.scene (place ++ [name])).isSome then
      .ok (.standing (place ++ [name])) else .ok (.vacant place name) :=
  FileTree.spot_entry hname hadmits hopens (h.linkFree hopens place hopens)

private theorem Plain.resolve (h : t.Plain place name) (hopens : t.Opens dir place)
    (hname : IsFileName name) (hadmits : Admits dir name) (follow : Bool) :
    t.resolve follow (dir.entry name) = .ok (.missing place name) ∨
      ∃ bytes, t.resolve follow (dir.entry name) =
        .ok (.found (place ++ [name]) (.file bytes)) := by
  have hspot := h.spot_entry hopens hname hadmits follow
  cases hseen : t.scene (place ++ [name]) with
  | none =>
    rw [hseen] at hspot
    exact .inl (resolve_of_vacant hspot)
  | some sight =>
    rw [hseen] at hspot
    obtain ⟨bytes, rfl⟩ := h sight hseen
    obtain ⟨node, hresolve⟩ := resolve_of_standing hspot
    have hat := (resolve_eq_found hresolve).2
    have hsight : node.sight = .file bytes := by
      rw [sight_of_at? hat] at hseen
      exact Option.some.inj hseen
    cases node with
    | file found => exact .inr ⟨found, hresolve⟩
    | link target => cases hsight
    | directory entries => cases hsight

private theorem create_of_plain (h : t.Plain place name) (hopens : t.Opens dir place)
    (hname : IsFileName name) (hadmits : Admits dir name) :
    ∃ t', t.create (dir.entry name) = (.ok (), t') ∧
      t.Alters dir name (some ByteArray.empty) t' := by
  refine (create_entry hname (h.linkFree hopens)).resolve_left ?_
  rintro ⟨e, hfail⟩
  unfold create at hfail
  rcases h.resolve hopens hname hadmits true with hmissing | ⟨bytes, hfound⟩
  · rw [hmissing] at hfail
    cases hfail
  · rw [hfound] at hfail
    cases hfail

private theorem Has.node (h : t.Has dir name bytes) (hname : IsFileName name) (follow : Bool) :
    ∃ place, t.node follow (dir.entry name) = .ok (place, .file bytes) := by
  obtain ⟨hadmits, place, hopens, hseen⟩ := h
  have hplain := Plain.of_file hseen
  have hspot := hplain.spot_entry hopens hname hadmits follow
  rw [hseen] at hspot
  rcases hplain.resolve hopens hname hadmits follow with hmissing | ⟨found, hfound⟩
  · obtain ⟨node, hstanding⟩ := resolve_of_standing hspot
    rw [hmissing] at hstanding
    cases hstanding
  · have hat := (resolve_eq_found hfound).2
    rw [sight_of_at? hat] at hseen
    cases hseen
    exact ⟨place ++ [name], by rw [FileTree.node, hfound]⟩

theorem Has.linkFree (h : t.Has dir name bytes) : t.LinkFree dir name := by
  obtain ⟨-, place, hopens, hseen⟩ := h
  exact (Plain.of_file hseen).linkFree hopens

private theorem write_of_has {old : ByteArray} (h : t.Has dir name old) (hname : IsFileName name)
    (bytes : ByteArray) :
    ∃ t', t.write (dir.entry name) bytes = (.ok (), t') ∧
      t.Alters dir name (some bytes) t' := by
  refine (write_entry hname h.linkFree bytes).resolve_left ?_
  rintro ⟨e, hfail⟩
  obtain ⟨found, hnode⟩ := h.node hname true
  rw [write, hnode] at hfail
  cases hfail

private theorem remove_of_has (h : t.Has dir name bytes) (hname : IsFileName name) :
    ∃ t', t.remove (dir.entry name) = (.ok (), t') ∧ t.Alters dir name none t' := by
  refine (remove_entry hname h.linkFree).resolve_left ?_
  rintro ⟨e, hfail⟩
  obtain ⟨found, hnode⟩ := h.node hname false
  rw [remove, hnode] at hfail
  cases hfail

private theorem rename_of_has {target : String} (h : t.Has dir name bytes) (hname : IsFileName name)
    (hopens : t.Opens dir place) (hplain : t.Plain place target) (htarget : IsFileName target)
    (hadmits : Admits dir target) (hne : target ≠ name) :
    ∃ between t', t.rename (dir.entry name) (dir.entry target) = (.ok (), t') ∧
      t.Alters dir name none between ∧ between.Alters dir target (some bytes) t' := by
  rcases rename_entry hname h.linkFree htarget (hplain.linkFree hopens) hne with
    ⟨e, hfail⟩ | ⟨found, between, t', hrename, hfound, htake, hput⟩
  · obtain ⟨source, hnode⟩ := h.node hname false
    rw [rename, hnode] at hfail
    rcases hplain.resolve hopens htarget hadmits false with hmissing | ⟨old, hold⟩
    · rw [hmissing] at hfail
      cases hfail
    · rw [hold] at hfail
      cases hfail
  · obtain rfl := hfound.unique h
    exact ⟨between, t', hrename, htake, hput⟩

theorem Alters.opens {bytes? : Option ByteArray} {path : Path} (h : t.Alters dir name bytes? t')
    (hopens : t.Opens path place) : t'.Opens path place := by
  unfold Opens
  rw [h.working]
  exact Scene.Opens.of_keeps h.keeps hopens

theorem Alters.scene_set {bytes? : Option ByteArray} (h : t.Alters dir name bytes? t')
    (hopens : t.Opens dir place) :
    t'.scene = t.scene.set (place ++ [name]) (bytes?.map .file) := by
  obtain ⟨directory, hopens', -, hscene⟩ := h.change
  obtain rfl := hopens.unique hopens'
  exact hscene

end FileTree

private theorem Scene.set_set_of_none {s : Scene} {place other : Place}
    {first second seen : Option Sight} (h : s other = none) :
    (((s.set other first).set other second).set other none).set place seen = s.set place seen := by
  funext target
  unfold Scene.set
  split
  · rfl
  · split
    · next heq => rw [heq, h]
    · rfl

/-! ## Entries that are written -/

namespace Desk

open Cache

variable {ρ : Type} {d : Desk ρ} {c : Cache} {place : Place} {scope key : String}

abbrev filed (place : Place) (scope key : String) : Place := place ++ [scope] ++ [fileName key]

/-- A tree after bytes were stored in an entry: but for the entry's file, only directories that were
missing on the way to it are new. -/
structure Stores (c : Cache) (place : Place) (scope key : String) (bytes : ByteArray)
    (t t' : FileTree) : Prop where
  tokens : t'.tokens = t.tokens + 1
  distinct : t.Distinct → t'.Distinct
  root : t'.Opens c.root place
  file : t'.scene (filed place scope key) = some (.file bytes)
  scene : ∀ other, other ≠ filed place scope key → t'.scene other = t.scene other ∨
    other <+: place ++ [scope] ∧ t.scene other = none ∧ t'.scene other = some .directory

def Sets {ε : Type} (dir : Path) (name : String) (bytes? : Option ByteArray) (d : Desk ρ)
    (r : Except ε Unit) (d' : Desk ρ) : Prop :=
  r = .ok () ∧ d.files.Alters dir name bytes? d'.files ∧ (d.files.Distinct → d'.files.Distinct)

variable {dir : Path} {name : String} {bytes : ByteArray}

private theorem yields_create_of_plain (h : d.files.Plain place name)
    (hopens : d.files.Opens dir place) (hname : IsFileName name) (hadmits : Admits dir name) :
    Yields (access.create (dir.entry name)) d (Sets dir name (some ByteArray.empty) d) := by
  obtain ⟨t, hcreate, halters⟩ := create_of_plain h hopens hname hadmits
  have hdistinct (h : d.files.Distinct) := h.create (dir.entry name)
  rw [hcreate] at hdistinct
  refine (yields_changed (fun t => t.create _) hcreate).mono ?_
  rintro _ d' ⟨rfl, rfl⟩
  exact ⟨rfl, halters, hdistinct⟩

private theorem yields_write_of_has {old : ByteArray} (h : d.files.Has dir name old)
    (hname : IsFileName name) (bytes : ByteArray) :
    Yields (access.write (dir.entry name) bytes) d (Sets dir name (some bytes) d) := by
  obtain ⟨t, hwrite, halters⟩ := write_of_has h hname bytes
  have hdistinct (h : d.files.Distinct) := h.write (dir.entry name) bytes
  rw [hwrite] at hdistinct
  refine (yields_changed (fun t => t.write _ bytes) hwrite).mono ?_
  rintro _ d' ⟨rfl, rfl⟩
  exact ⟨rfl, halters, hdistinct⟩

theorem yields_remove_of_has (h : d.files.Has dir name bytes) (hname : IsFileName name) :
    Yields (access.remove (dir.entry name)) d (Sets dir name none d) := by
  obtain ⟨t, hremove, halters⟩ := remove_of_has h hname
  have hdistinct (h : d.files.Distinct) := h.remove (dir.entry name)
  rw [hremove] at hdistinct
  refine (yields_changed (fun t => t.remove _) hremove).mono ?_
  rintro _ d' ⟨rfl, rfl⟩
  exact ⟨rfl, halters, hdistinct⟩

private theorem yields_rename_of_has {target : String} (h : d.files.Has dir name bytes)
    (hname : IsFileName name) (hopens : d.files.Opens dir place)
    (hplain : d.files.Plain place target) (htarget : IsFileName target)
    (hadmits : Admits dir target) (hne : target ≠ name) :
    Yields (access.rename (dir.entry name) (dir.entry target)) d fun r d' => r = .ok () ∧
      (∃ between, d.files.Alters dir name none between ∧
        between.Alters dir target (some bytes) d'.files) ∧
      (d.files.Distinct → d'.files.Distinct) := by
  obtain ⟨between, t, hrename, htake, hput⟩ :=
    rename_of_has h hname hopens hplain htarget hadmits hne
  have hdistinct (h : d.files.Distinct) := h.rename (dir.entry name) (dir.entry target)
  rw [hrename] at hdistinct
  refine (yields_changed (fun t => t.rename _ _) hrename).mono ?_
  rintro _ d' ⟨rfl, rfl⟩
  exact ⟨rfl, ⟨between, htake, hput⟩, hdistinct⟩

private theorem yields_writeAndRename_of_opens {n : Nat} (hopens : d.files.Opens dir place)
    (htemporary : Admits dir (temporaryName key n))
    (hnone : d.files.scene (place ++ [temporaryName key n]) = none)
    (hadmits : Admits dir (fileName key)) (hplain : d.files.Plain place (fileName key))
    (bytes : ByteArray) :
    Yields (writeAndRename access (dir.entry (temporaryName key n)) (dir.entry (fileName key))
      bytes) d fun r d' => r = .ok () ∧ d'.files.tokens = d.files.tokens ∧
        (d.files.Distinct → d'.files.Distinct) ∧
        (∀ path other, d.files.Opens path other → d'.files.Opens path other) ∧
        d'.files.scene = d.files.scene.set (place ++ [fileName key]) (some (.file bytes)) := by
  have hname := isFileName_temporaryName key n
  have hne := fileName_ne_temporaryName key key n
  unfold writeAndRename
  refine (yields_create_of_plain (.of_none hnone) hopens hname htemporary).bind ?_
  rintro _ d₁ ⟨rfl, h₁, hdistinct₁⟩
  refine (yields_write_of_has h₁.has_same hname bytes).bind ?_
  rintro _ d₂ ⟨rfl, h₂, hdistinct₂⟩
  have hsync : Yields (access.sync (dir.entry (temporaryName key n))) d₂
      fun r d' => r = .ok () ∧ d' = d₂ := ⟨rfl, rfl⟩
  refine hsync.bind ?_
  rintro _ d₂ ⟨rfl, rfl⟩
  have hopens₁ := h₁.opens_iff.2 hopens
  have hopens₂ := h₂.opens_iff.2 hopens₁
  have hplain₂ : d₂.files.Plain place (fileName key) := by
    intro sight hseen
    rw [h₂.scene_eq hopens₁, if_neg hne, h₁.scene_eq hopens, if_neg hne] at hseen
    exact hplain sight hseen
  refine (yields_rename_of_has h₂.has_same hname hopens₂ hplain₂ (isFileName_fileName key) hadmits
    hne).mono ?_
  rintro _ d₃ ⟨rfl, ⟨between, htake, hput⟩, hdistinct₃⟩
  have hopens₃ := htake.opens_iff.2 hopens₂
  refine ⟨rfl, ?_, hdistinct₃ ∘ hdistinct₂ ∘ hdistinct₁, fun path other hother => ?_, ?_⟩
  · rw [hput.tokens, htake.tokens, h₂.tokens, h₁.tokens]
  · exact hput.opens (htake.opens (h₂.opens (h₁.opens hother)))
  · rw [hput.scene_set hopens₃, htake.scene_set hopens₂, h₂.scene_set hopens₁,
      h₁.scene_set hopens]
    exact Scene.set_set_of_none hnone

/-- A write of an entry succeeds where its directory can be reached and nothing stands in the way of
its files. -/
theorem yields_write_of_reaches {α : Type} [Json.Codec α] (v : α)
    (hreaches : d.files.Reaches c.root place) (hfits : d.files.Fits place scope)
    (htemporary : Admits (c.directory scope) (temporaryName key d.files.tokens))
    (hnone : d.files.scene (place ++ [scope] ++ [temporaryName key d.files.tokens]) = none)
    (hadmits : Admits (c.directory scope) (fileName key))
    (hplain : d.files.Plain (place ++ [scope]) (fileName key)) :
    Yields (c.write access scope key v) d fun r d' => r = .ok () ∧
      Stores c place scope key (Json.Codec.encode v).indented.toUTF8 d.files d'.files := by
  have hname := isFileName_fileName key
  have hparent : (c.pathOf scope key).parent = some (c.directory scope) :=
    Path.parent_entry_entry c.root hfits.isFileName hname
  have haccepted := refusal?_of_entry hfits.isFileName hname hadmits.1
  have hmake : Yields (makeParent access (c.pathOf scope key)) d
      (Made c.root place scope d) := by
    unfold makeParent
    rw [hparent]
    exact yields_makeDirectories_of_reaches hreaches hfits haccepted
  unfold Cache.write
  refine hmake.bind ?_
  rintro _ d₁ ⟨rfl, hpaves, hroot, hopens⟩
  have hbelow (name : String) : d₁.files.scene (place ++ [scope] ++ [name]) =
      d.files.scene (place ++ [scope] ++ [name]) :=
    hpaves.scene_eq (not_isPrefix_below _ _)
  unfold replaceFile
  have hfresh : Yields access.freshToken d₁ fun token d' => token = tokenText d.files.tokens ∧
      d'.files = { d₁.files with tokens := d.files.tokens + 1 } := by
    rw [← hpaves.tokens]
    exact ⟨rfl, rfl⟩
  refine hfresh.bind ?_
  rintro _ d₂ ⟨rfl, hfiles⟩
  have hopens₂ {path : Path} {other : Place} (h : d₁.files.Opens path other) :
      d₂.files.Opens path other := by
    rw [hfiles]
    exact h
  have hscene₂ : d₂.files.scene = d₁.files.scene := by
    rw [hfiles]
    rfl
  have hdistinct₂ : d.files.Distinct → d₂.files.Distinct := by
    rw [hfiles]
    exact hpaves.distinct
  have hnone₂ : d₂.files.scene
      (place ++ [scope] ++ [temporaryName key d.files.tokens]) = none := by
    rw [hscene₂, hbelow, hnone]
  have hplain₂ : d₂.files.Plain (place ++ [scope]) (fileName key) := by
    intro sight hseen
    rw [hscene₂, hbelow] at hseen
    exact hplain sight hseen
  rw [temporaryPath_pathOf]
  refine (yields_writeAndRename_of_opens (hopens₂ hopens) htemporary hnone₂ hadmits hplain₂
    _).bind ?_
  rintro _ d₃ ⟨rfl, htokens, hdistinct₃, hopens₃, hscene₃⟩
  refine yields_pure ⟨rfl, ?_, hdistinct₃ ∘ hdistinct₂, hopens₃ _ _ (hopens₂ hroot), ?_, ?_⟩
  · rw [htokens, hfiles]
  · rw [hscene₃, Scene.set_same]
  · intro other hother
    rw [hscene₃, Scene.set_of_ne _ _ hother, hscene₂]
    exact hpaves.scene other

end Desk
end StepScript
