import StepScript.Proofs.CacheStore
import StepScript.Proofs.DirectoryListing

/-!
Making a directory and those above it. A path reaches a place when it leads to a directory there, or
when nothing but missing directories keeps it from doing so. Then its entries are not found as long
as the place is missing, and making the directory of an entry makes exactly what is missing on the
way to it.
-/

set_option autoImplicit false
set_option relaxedAutoImplicit false

namespace StepScript

open FileTree

/-! ## Names behind a missing one -/

/-- Why nothing is found behind names that come to this. -/
def Spot.dead? : Except FileError Spot → Option FileError
  | .error e => some e
  | .ok (.vacant _ _) => some .notFound
  | .ok (.standing _) => none

theorem Scene.settle_append_of_dead {s : Scene} {follow : Bool} {links : Nat} {place : Place}
    {names : List String} {last : String} {e : FileError}
    (h : Spot.dead? (s.settle true links place names) = some e) :
    s.settle follow links place (names ++ [last]) = .error e := by
  fun_induction settle s true links place names with
  | case1 links place names spot hroam =>
    cases spot with
    | standing directory => cases h
    | vacant directory missing =>
      cases h
      rw [settle, roam_append, hroam]
      rfl
  | case2 links place names e' hroam =>
    cases h
    rw [settle, roam_append, hroam]
    rfl
  | case3 place names seenFrom target left hroam =>
    cases h
    rw [settle, roam_append, hroam]
    rfl
  | case4 place names seenFrom target left hroam links start ih =>
    rw [settle, roam_append, hroam]
    simp only [Halt.onward, ← List.append_assoc]
    exact ih h

namespace FileTree

variable {t t' : FileTree} {dir : Path} {name : String} {place : Place}

def Misses (t : FileTree) (dir : Path) : Prop :=
  ∃ start, t.scene.origin? t.working dir = some start ∧
    Spot.dead? (t.scene.settle true linkLimit start dir.names) = some .notFound

private theorem Misses.entry (h : t.Misses dir) (hname : IsFileName name) :
    t.Misses (dir.entry name) := by
  obtain ⟨start, horigin, hdead⟩ := h
  refine ⟨start, (Scene.origin?_entry _ _ dir hname).trans horigin, ?_⟩
  rw [Path.names_entry dir hname, Scene.settle_append_of_dead hdead]
  rfl

theorem Misses.spot_entry (h : t.Misses dir) (hname : IsFileName name)
    (haccepted : refusal? (dir.entry name).text = none) (follow : Bool) :
    t.spot follow (dir.entry name) = .error .notFound := by
  obtain ⟨start, horigin, hdead⟩ := h
  unfold spot
  rw [haccepted, Scene.origin?_entry _ _ dir hname, horigin, Path.piecesOf_entry dir hname]
  exact Scene.settle_append_of_dead hdead

/-! ## Places that can be reached -/

structure Fits (t : FileTree) (place : Place) (name : String) : Prop where
  isFileName : IsFileName name
  short : name.utf8ByteSize ≤ nameLimit
  clear : t.scene (place ++ [name]) = none ∨ t.scene (place ++ [name]) = some .directory

/-- A path leads to a directory at a place, or would if the directories on the way were made. -/
inductive Reaches (t : FileTree) : Path → Place → Prop
  | stands {dir : Path} {place : Place} : t.Opens dir place → t.Reaches dir place
  | onward {dir : Path} {place : Place} {name : String} :
      t.Reaches dir place → t.Fits place name → t.Reaches (dir.entry name) (place ++ [name])

theorem Fits.opens_entry (h : t.Fits place name) (hopens : t.Opens dir place)
    (hdir : t.scene (place ++ [name]) = some .directory) :
    t.Opens (dir.entry name) (place ++ [name]) := by
  obtain ⟨start, horigin, hleads⟩ := hopens
  refine ⟨start, (Scene.origin?_entry _ _ dir h.isFileName).trans horigin, ?_⟩
  rw [Path.names_entry dir h.isFileName]
  exact hleads.append h.isFileName.toIsEntryName h.short hdir

private theorem Fits.misses_entry (h : t.Fits place name) (hopens : t.Opens dir place)
    (hnone : t.scene (place ++ [name]) = none) : t.Misses (dir.entry name) := by
  obtain ⟨start, horigin, hleads⟩ := hopens
  refine ⟨start, (Scene.origin?_entry _ _ dir h.isFileName).trans horigin, ?_⟩
  have hfree (target : String) : t.scene (place ++ [name]) ≠ some (.link target) := by
    rw [hnone]
    exact nofun
  rw [Path.names_entry dir h.isFileName,
    hleads.settle_append true h.isFileName.toIsEntryName hfree, Scene.spotIn,
    if_neg (Nat.not_lt.2 h.short), hnone]
  rfl

theorem scene_below (h : t.scene place ≠ some .directory) (name : String) :
    t.scene (place ++ [name]) = none := by
  by_contra hsome
  obtain ⟨seen, hseen⟩ := Option.ne_none_iff_exists'.1 hsome
  exact h (FileNode.scene_isDirectory hseen)

theorem scene_eq_none_of_above (h : t.scene place = none) (name : String) :
    t.scene (place ++ [name]) = none :=
  scene_below (by simp [h]) name

/-- What a path reaches is there, and the path leads to it; or it is not there, and the path leads
to nothing. -/
theorem Reaches.cases (h : t.Reaches dir place) :
    t.Opens dir place ∨ t.scene place = none ∧ t.Misses dir := by
  induction h with
  | stands hopens => exact .inl hopens
  | @onward dir place name _ hfits ih =>
    rcases ih with hopens | ⟨hnone, hmisses⟩
    · rcases hfits.clear with hclear | hdir
      · exact .inr ⟨hclear, hfits.misses_entry hopens hclear⟩
      · exact .inl (hfits.opens_entry hopens hdir)
    · exact .inr ⟨scene_eq_none_of_above hnone name, hmisses.entry hfits.isFileName⟩

theorem Reaches.opens (h : t.Reaches dir place) (hdir : t.scene place = some .directory) :
    t.Opens dir place := by
  rcases h.cases with hopens | ⟨hnone, -⟩
  · exact hopens
  · rw [hnone] at hdir
    cases hdir

theorem Reaches.misses (h : t.Reaches dir place) (hnone : t.scene place = none) :
    t.Misses dir := by
  rcases h.cases with hopens | ⟨-, hmisses⟩
  · have hdir := hopens.isDirectory
    rw [hnone] at hdir
    cases hdir
  · exact hmisses

/-! ## Making directories -/

/-- A tree after the directories that were missing on the way to a place were made. -/
structure Paves (place : Place) (t t' : FileTree) : Prop where
  working : t'.working = t.working
  tokens : t'.tokens = t.tokens
  distinct : t.Distinct → t'.Distinct
  scene : ∀ other, t'.scene other = t.scene other ∨
    other <+: place ∧ t.scene other = none ∧ t'.scene other = some .directory

namespace Paves

private theorem refl (place : Place) (t : FileTree) : Paves place t t :=
  ⟨rfl, rfl, id, fun _ => .inl rfl⟩

private theorem grows (h : Paves place t t') : t.Grows t' :=
  ⟨h.working, h.tokens, fun other => (h.scene other).imp_right And.right⟩

private theorem trans {above : Place} {t'' : FileTree} (h : Paves above t t')
    (hplace : above <+: place) (h' : Paves place t' t'') : Paves place t t'' := by
  refine ⟨h'.working.trans h.working, h'.tokens.trans h.tokens, h'.distinct ∘ h.distinct, ?_⟩
  intro other
  rcases h'.scene other with heq | ⟨hinit, hnone, hdir⟩
  · rw [heq]
    exact (h.scene other).imp_right fun ⟨hinit, hrest⟩ => ⟨hinit.trans hplace, hrest⟩
  · rcases h.scene other with heq | ⟨-, -, hdir'⟩
    · exact .inr ⟨hinit, heq ▸ hnone, hdir⟩
    · rw [hnone] at hdir'
      cases hdir'

/-- Nothing is new but on the way. -/
theorem scene_eq (h : Paves place t t') {other : Place} (hother : ¬ other <+: place) :
    t'.scene other = t.scene other :=
  (h.scene other).resolve_right fun hnew => hother hnew.1

end Paves

theorem resolve_of_error {follow : Bool} {path : Path} {e : FileError}
    (h : t.spot follow path = .error e) : t.resolve follow path = .error e := by
  rw [← (t.resolve_spec follow path).1] at h
  cases hresolve : t.resolve follow path with
  | error e' =>
    rw [hresolve] at h
    cases h
    rfl
  | ok target =>
    rw [hresolve] at h
    cases h

private theorem exists_target {follow : Bool} {path : Path} {spot : Spot}
    (h : t.spot follow path = .ok spot) :
    ∃ target, t.resolve follow path = .ok target ∧ target.spot = spot := by
  rw [← (t.resolve_spec follow path).1] at h
  cases hresolve : t.resolve follow path with
  | error e =>
    rw [hresolve] at h
    cases h
  | ok target =>
    rw [hresolve] at h
    exact ⟨target, rfl, Except.ok.inj h⟩

theorem resolve_of_vacant {follow : Bool} {path : Path} {missing : String}
    (h : t.spot follow path = .ok (.vacant place missing)) :
    t.resolve follow path = .ok (.missing place missing) := by
  obtain ⟨target, hresolve, hspot⟩ := exists_target h
  cases target with
  | found place' node => cases hspot
  | missing place' missing' =>
    cases hspot
    exact hresolve

theorem resolve_of_standing {follow : Bool} {path : Path}
    (h : t.spot follow path = .ok (.standing place)) :
    ∃ node, t.resolve follow path = .ok (.found place node) := by
  obtain ⟨target, hresolve, hspot⟩ := exists_target h
  cases target with
  | found place' node =>
    cases hspot
    exact ⟨node, hresolve⟩
  | missing place' missing => cases hspot

private theorem spot_of_fits (h : t.Fits place name) (hopens : t.Opens dir place)
    (haccepted : refusal? (dir.entry name).text = none) (follow : Bool) :
    t.spot follow (dir.entry name) = if (t.scene (place ++ [name])).isSome then
      .ok (.standing (place ++ [name])) else .ok (.vacant place name) := by
  refine FileTree.spot_entry h.isFileName ⟨haccepted, h.short⟩ hopens fun target hlink => ?_
  rcases h.clear with hnone | hdir
  · rw [hnone] at hlink
    cases hlink
  · rw [hdir] at hlink
    cases hlink

private theorem makeDirectory_of_misses (hname : IsFileName name) (hmisses : t.Misses dir)
    (haccepted : refusal? (dir.entry name).text = none) :
    t.makeDirectory (dir.entry name) = (.error .notFound, t) := by
  unfold makeDirectory
  rw [Path.withoutSlash_entry dir hname,
    resolve_of_error (hmisses.spot_entry hname haccepted false)]

private theorem makeDirectory_of_standing (h : t.Fits place name) (hopens : t.Opens dir place)
    (haccepted : refusal? (dir.entry name).text = none)
    (hdir : t.scene (place ++ [name]) = some .directory) :
    t.makeDirectory (dir.entry name) = (.error .alreadyExists, t) := by
  have hspot := spot_of_fits h hopens haccepted false
  rw [hdir] at hspot
  obtain ⟨node, hresolve⟩ := resolve_of_standing hspot
  unfold makeDirectory
  rw [Path.withoutSlash_entry dir h.isFileName, hresolve]

private theorem makeDirectory_of_vacant (h : t.Fits place name) (hopens : t.Opens dir place)
    (haccepted : refusal? (dir.entry name).text = none)
    (hnone : t.scene (place ++ [name]) = none) :
    ∃ t', t.makeDirectory (dir.entry name) = (.ok (), t') ∧ Paves (place ++ [name]) t t' ∧
      t'.Opens (dir.entry name) (place ++ [name]) := by
  have hspot := spot_of_fits h hopens haccepted false
  rw [hnone] at hspot
  have hmade : t.makeDirectory (dir.entry name) =
      (.ok (), t.put (place ++ [name]) (.directory [])) := by
    unfold makeDirectory
    rw [Path.withoutSlash_entry dir h.isFileName, resolve_of_vacant hspot]
  have hscene := scene_put_directory hopens.isDirectory hnone
  have hpaves : Paves (place ++ [name]) t (t.put (place ++ [name]) (.directory [])) := by
    refine ⟨rfl, rfl, fun hdistinct => hdistinct.put FileNode.isBare_empty.distinct _, ?_⟩
    intro other
    rw [hscene]
    by_cases hother : other = place ++ [name]
    · subst hother
      exact .inr ⟨List.prefix_rfl, hnone, Scene.set_same _ _ _⟩
    · exact .inl (Scene.set_of_ne _ _ hother)
  have hdir : (t.put (place ++ [name]) (.directory [])).scene (place ++ [name]) =
      some .directory := by
    rw [hscene, Scene.set_same]
  refine ⟨_, hmade, hpaves, Fits.opens_entry ⟨h.isFileName, h.short, .inr hdir⟩ ?_ hdir⟩
  exact hpaves.grows.opens hopens

theorem refusal?_eq_none_iff {text : String} : refusal? text = none ↔
    Char.ofNat 0 ∉ text.toList ∧ text.utf8ByteSize ≤ pathLimit ∧ text ≠ "" := by
  unfold refusal?
  split
  · next hnul => simp_all
  · next hnul =>
    split
    · next hlong => simp [Nat.not_le.2 hlong]
    · next hlong =>
      split
      · next hempty => simp [eq_of_beq hempty]
      · next hempty => simpa using ⟨by simpa using hnul, Nat.not_lt.1 hlong, by simpa using hempty⟩

theorem refusal?_of_entry {scope : String} (hscope : IsFileName scope) (hname : IsFileName name)
    (haccepted : refusal? ((dir.entry scope).entry name).text = none) :
    refusal? (dir.entry scope).text = none := by
  have hne : (dir.entry scope).text ≠ "" := by
    intro hempty
    have hnames := Path.names_entry dir hscope
    have hpieces : (dir.entry scope).names = [] := by
      rw [Path.names, Path.pieces, hempty]
      rfl
    rw [hpieces] at hnames
    simp at hnames
  rw [refusal?_eq_none_iff, Path.text_entry_entry dir hscope hname, String.toList_append,
    List.mem_append, not_or, String.utf8ByteSize_append] at haccepted
  exact refusal?_eq_none_iff.2 ⟨haccepted.1.1, by omega, hne⟩

end FileTree

namespace Desk

variable {ρ : Type} {d : Desk ρ} {dir : Path} {place : Place} {name : String}

theorem yields_isDirectory_of_opens (hopens : d.files.Opens dir place)
    (haccepted : refusal? dir.text = none) :
    Yields (access.isDirectory dir) d fun r d' => r = true ∧ d' = d := by
  refine ⟨?_, rfl⟩
  change (d.files.kind? dir == some .directory) = true
  rw [kind?_of_opens hopens haccepted]
  rfl

/-- The directory of an entry stands, and only what was missing on the way to it was made. -/
structure Made (dir : Path) (place : Place) (name : String) (d : Desk ρ)
    (r : Except FileError Unit) (d' : Desk ρ) : Prop where
  result : r = .ok ()
  paves : Paves (place ++ [name]) d.files d'.files
  above : d'.files.Opens dir place
  opens : d'.files.Opens (dir.entry name) (place ++ [name])

theorem yields_changed (f : FileTree → Change) {r₀ : Except FileError Unit} {t : FileTree}
    (h : f d.files = (r₀, t)) :
    Yields (FileAccess.changeWith f) d fun r d' => r = r₀ ∧ d' = d.withFiles t := by
  change (f d.files).1 = r₀ ∧ d.withFiles (f d.files).2 = d.withFiles t
  rw [h]
  exact ⟨rfl, rfl⟩

private theorem text_ne_empty {path : Path} (haccepted : refusal? path.text = none) :
    ¬ (path.text == "") = true := by
  simpa using (refusal?_eq_none_iff.1 haccepted).2.2

private theorem yields_makeDirectoriesFrom_of_opens (depth : Nat) (hfits : d.files.Fits place name)
    (hopens : d.files.Opens dir place) (haccepted : refusal? (dir.entry name).text = none) :
    Yields (access.makeDirectoriesFrom (depth + 1) (dir.entry name)) d
      (Made dir place name d) := by
  unfold FileAccess.makeDirectoriesFrom
  rw [if_neg (text_ne_empty haccepted)]
  rcases hfits.clear with hnone | hdir
  · obtain ⟨t, hmade, hpaves, hopens'⟩ := makeDirectory_of_vacant hfits hopens haccepted hnone
    refine (yields_changed (fun t => t.makeDirectory _) hmade).bind ?_
    rintro _ d' ⟨rfl, rfl⟩
    exact yields_pure ⟨rfl, hpaves, hpaves.grows.opens hopens, hopens'⟩
  · have hstanding := makeDirectory_of_standing hfits hopens haccepted hdir
    refine (yields_changed (fun t => t.makeDirectory _) hstanding).bind ?_
    rintro _ d' ⟨rfl, rfl⟩
    have hthere := hfits.opens_entry hopens hdir
    refine (yields_isDirectory_of_opens hthere haccepted).bind ?_
    rintro _ _ ⟨rfl, rfl⟩
    exact yields_pure ⟨rfl, .refl _ _, hopens, hthere⟩

theorem not_isPrefix_below (place : Place) (name : String) : ¬ place ++ [name] <+: place := by
  intro hinit
  have hlength := hinit.length_le
  rw [List.length_append, List.length_singleton] at hlength
  omega

private theorem yields_makeDirectoriesFrom_of_reaches {depth : Nat} (h : d.files.Reaches dir place)
    (hfits : d.files.Fits place name) (haccepted : refusal? (dir.entry name).text = none)
    (hdepth : (dir.entry name).parts.length ≤ depth) :
    Yields (access.makeDirectoriesFrom depth (dir.entry name)) d
      (Made dir place name d) := by
  induction h generalizing name depth with
  | @stands dir place hopens =>
    rw [Path.parts_entry dir hfits.isFileName, List.length_append] at hdepth
    obtain ⟨depth, rfl⟩ := Nat.exists_eq_add_of_lt (Nat.lt_of_lt_of_le (Nat.succ_pos _) hdepth)
    exact yields_makeDirectoriesFrom_of_opens _ hfits hopens haccepted
  | @onward dir place above habove hhere ih =>
    rw [Path.parts_entry _ hfits.isFileName, Path.stem_entry dir hhere.isFileName,
      List.length_append, List.length_singleton] at hdepth
    obtain ⟨depth, rfl⟩ : ∃ n, depth = n + 1 := ⟨depth - 1, by omega⟩
    rcases (Reaches.onward habove hhere).cases with hopens | ⟨hnone, hmisses⟩
    · exact yields_makeDirectoriesFrom_of_opens depth hfits hopens haccepted
    have haccepted' := refusal?_of_entry hhere.isFileName hfits.isFileName haccepted
    unfold FileAccess.makeDirectoriesFrom
    rw [if_neg (text_ne_empty haccepted)]
    -- What is missing above is made first, and then the directory is tried again.
    have hmissing := makeDirectory_of_misses hfits.isFileName hmisses haccepted
    refine (yields_changed (fun t => t.makeDirectory _) hmissing).bind ?_
    rintro _ d' ⟨rfl, rfl⟩
    simp only [Path.parent_entry_entry dir hhere.isFileName hfits.isFileName]
    refine (ih hhere haccepted' (by omega)).bind ?_
    rintro _ d₁ ⟨rfl, hpaves, -, hopens⟩
    have hvacant : d₁.files.scene (place ++ [above] ++ [name]) = none := by
      rw [hpaves.scene_eq (not_isPrefix_below _ _)]
      exact scene_eq_none_of_above hnone name
    obtain ⟨t, hmade, hpaves', hopens'⟩ := makeDirectory_of_vacant
      ⟨hfits.isFileName, hfits.short, .inl hvacant⟩ hopens haccepted hvacant
    refine (yields_changed (fun t => t.makeDirectory _) hmade).bind ?_
    rintro _ d₂ ⟨rfl, rfl⟩
    exact yields_pure ⟨rfl, hpaves.trans (List.prefix_append _ _) hpaves',
      hpaves'.grows.opens hopens, hopens'⟩

theorem yields_makeDirectories_of_reaches (h : d.files.Reaches dir place)
    (hfits : d.files.Fits place name) (haccepted : refusal? (dir.entry name).text = none) :
    Yields (access.makeDirectories (dir.entry name)) d
      (Made dir place name d) :=
  yields_makeDirectoriesFrom_of_reaches h hfits haccepted (Nat.le_succ _)

end Desk
end StepScript
