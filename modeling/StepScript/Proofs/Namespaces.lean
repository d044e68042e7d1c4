import StepScript.Proofs.CacheFiles

/-!
The namespaces of a cache. Each namespace has a directory of its own in the cache's directory, unless
its name is a link there; so what a cache does in one namespace is not seen in another.
-/

set_option autoImplicit false
set_option relaxedAutoImplicit false

namespace StepScript

/-! ## Directories in directories -/

namespace Scene

open FileTree

variable {s : Scene}

theorem Leads.settle {links : Nat} {place directory : Place} {names : List String}
    (h : s.Leads links place names directory) :
    s.settle true links place names = .ok (.standing directory) := by
  induction h with
  | here hroam _ => rw [Scene.settle, hroam]
  | link hroam _ ih =>
    rw [Scene.settle, hroam]
    exact ih

theorem Leads.append {links : Nat} {place directory : Place} {names : List String}
    {name : String} (h : s.Leads links place names directory) (hname : IsEntryName name)
    (hshort : name.utf8ByteSize ≤ nameLimit) (hdir : s (directory ++ [name]) = some .directory) :
    s.Leads links place (names ++ [name]) (directory ++ [name]) := by
  induction h with
  | @here links place directory names hroam hstart =>
    refine .here ?_ hdir
    rw [roam_append, hroam]
    simp [Halt.onward, roam, hstart, hname.ne_here, hname.ne_up, Nat.not_lt.2 hshort, hdir]
  | @link links place directory seenFrom names left target hroam _ ih =>
    have hlink : s.roam true place (names ++ [name]) = .link seenFrom target (left ++ [name]) := by
      rw [roam_append, hroam]
      rfl
    refine .link hlink ?_
    rw [← List.append_assoc]
    exact ih hdir

private theorem opens_entry_iff {working place : Place} {dir : Path} {name : String}
    (hname : IsFileName name) (hfree : ∀ directory, s.Opens working dir directory →
      ∀ target, s (directory ++ [name]) ≠ some (.link target)) :
    s.Opens working (dir.entry name) place ↔ ∃ directory, s.Opens working dir directory ∧
      name.utf8ByteSize ≤ nameLimit ∧ place = directory ++ [name] ∧
        s (directory ++ [name]) = some .directory := by
  constructor
  · rintro ⟨start, horigin, hleads⟩
    rw [origin?_entry s working dir hname] at horigin
    rw [Path.names_entry dir hname] at hleads
    obtain ⟨directory, hbefore⟩ := leads_of_settle_append hleads.settle
    have hopens : s.Opens working dir directory := ⟨start, horigin, hbefore⟩
    have hspot := hbefore.settle_append true hname.toIsEntryName (hfree directory hopens)
    rw [hleads.settle, spotIn] at hspot
    split at hspot
    · cases hspot
    · next hshort =>
      split at hspot
      · cases hspot
        exact ⟨directory, hopens, Nat.not_lt.1 hshort, rfl, hleads.isDirectory⟩
      · cases hspot
  · rintro ⟨directory, ⟨start, horigin, hleads⟩, hshort, rfl, hdir⟩
    refine ⟨start, (origin?_entry s working dir hname).trans horigin, ?_⟩
    rw [Path.names_entry dir hname]
    exact hleads.append hname.toIsEntryName hshort hdir

end Scene

namespace FileTree

open Cache

variable {t t' t'' : FileTree} {root : Path} {scope other name : String}

/-! ## Links -/

/-- Whatever directories are made, no link stands under the name of a namespace. -/
def Unlinked (t : FileTree) (root : Path) : Prop :=
  ∀ s, t.scene.Grows s → ∀ directory, s.Opens t.working root directory →
    ∀ scope, IsFileName scope → ∀ target, s (directory ++ [scope]) ≠ some (.link target)

theorem unlinked_of_none
    (h : ∀ place name, IsFileName name → t.scene (place ++ [name]) = none) :
    t.Unlinked root := by
  intro s hgrows directory _ scope hscope target hlink
  rcases hgrows (directory ++ [scope]) with heq | ⟨-, hdir⟩
  · rw [heq, h directory scope hscope] at hlink
    cases hlink
  · rw [hdir] at hlink
    cases hlink

namespace Unlinked

private theorem opens_iff (h : t.Unlinked root) {s : Scene} (hgrows : t.scene.Grows s)
    (hscope : IsFileName scope) {place : Place} :
    s.Opens t.working (root.entry scope) place ↔ ∃ directory, s.Opens t.working root directory ∧
      scope.utf8ByteSize ≤ nameLimit ∧ place = directory ++ [scope] ∧
        s (directory ++ [scope]) = some .directory :=
  Scene.opens_entry_iff hscope fun directory hopens => h s hgrows directory hopens scope hscope

private theorem of_grows (h : t.Unlinked root) (hgrows : t.Grows t') : t'.Unlinked root := by
  intro s hs directory hopens
  rw [hgrows.working] at hopens
  exact h s (hgrows.scene.trans hs) directory hopens

private theorem withTokens (h : t.Unlinked root) (n : Nat) : Unlinked
    { t with tokens := n } root := h

end Unlinked

variable {bytes? : Option ByteArray}

private theorem place_of_alters (h : t.Unlinked root) (hscope : IsFileName scope)
    (halters : t.Alters (root.entry scope) name bytes? t') :
    ∃ directory, t.Opens root directory ∧
      (∀ place, place ≠ directory ++ [scope] ++ [name] → t'.scene place = t.scene place) ∧
      ∀ s, t'.scene.Grows s → s.Opens t.working root directory := by
  obtain ⟨place, hopens, -, hscene⟩ := halters.change
  obtain ⟨directory, hroot, -, rfl, -⟩ := (h.opens_iff (.refl _) hscope).1 hopens
  refine ⟨directory, hroot, fun place hne => ?_, fun s hgrows => ?_⟩
  · rw [hscene, Scene.set_of_ne _ _ hne]
  · exact Scene.Opens.of_keeps hgrows.keeps (Scene.Opens.of_keeps halters.keeps hroot)

private theorem ne_of_namespace (directory : Place) : directory ++ [other] ≠
    directory ++ [scope] ++ [name] := by
  intro heq
  have hlength := congrArg List.length heq
  simp at hlength

private theorem Unlinked.of_alters (h : t.Unlinked root) (hscope : IsFileName scope)
    (halters : t.Alters (root.entry scope) name bytes? t') : t'.Unlinked root := by
  obtain ⟨directory, hroot, hsame, hstays⟩ := place_of_alters h hscope halters
  intro s hgrows directory' hopens other hother target hlink
  rw [halters.working] at hopens
  obtain rfl := hopens.unique (hstays s hgrows)
  rcases hgrows (directory' ++ [other]) with heq | ⟨-, hdir⟩
  · rw [heq, hsame _ (ne_of_namespace directory')] at hlink
    exact h t.scene (.refl _) directory' hroot other hother target hlink
  · rw [hdir] at hlink
    cases hlink

private theorem Tidy.sightly_of_opens {good : String → ByteArray → Prop} {directory : Place}
    (htidy : t.Tidy (root.entry scope) good) (h : t.Unlinked root) (hscope : IsFileName scope)
    (hroot : t.Opens root directory) (hshort : scope.utf8ByteSize ≤ nameLimit)
    (hplace : t.scene (directory ++ [scope]) = some .directory ∨
      t.scene (directory ++ [scope]) = none) (hname : IsOwnName name) :
    Sightly good name (t.scene (directory ++ [scope] ++ [name])) := by
  have hmade : t.scene.Grows (t.scene.set (directory ++ [scope]) (some .directory)) := by
    intro place
    by_cases hsame : place = directory ++ [scope]
    · subst hsame
      rw [Scene.set_same]
      rcases hplace with hdir | hnone
      · exact .inl hdir.symm
      · exact .inr ⟨hnone, rfl⟩
    · exact .inl (Scene.set_of_ne _ _ hsame)
  have hopens := (h.opens_iff hmade hscope).2
    ⟨directory, Scene.Opens.of_keeps hmade.keeps hroot, hshort, rfl, Scene.set_same _ _ _⟩
  have hne : directory ++ [scope] ++ [name] ≠ directory ++ [scope] := by simp
  have hsightly := htidy _ hmade _ hopens name hname
  rwa [Scene.set_of_ne _ _ hne] at hsightly

private theorem spares_of_alters (h : t.Unlinked root) (hscope : IsFileName scope)
    (hother : IsFileName other) (hne : other ≠ scope)
    (halters : t.Alters (root.entry scope) name bytes? t') :
    Spares (root.entry other) t t' := by
  obtain ⟨directory, hroot, hsame, hstays⟩ := place_of_alters h hscope halters
  have hfile (name' : String) : t'.scene (directory ++ [other] ++ [name']) =
      t.scene (directory ++ [other] ++ [name']) := by
    refine hsame _ fun heq => hne ?_
    simpa using (List.append_inj_left' heq rfl)
  constructor
  · rintro key bytes ⟨hadmits, place, hopens, hseen⟩
    obtain ⟨directory', hroot', -, rfl, -⟩ := (h.opens_iff (.refl _) hother).1 hopens
    obtain rfl := hroot'.unique hroot
    refine ⟨hadmits, directory' ++ [other], ?_, (hfile _).trans hseen⟩
    unfold Opens
    rw [halters.working]
    exact Scene.Opens.of_keeps halters.keeps hopens
  · intro good _ htidy s hgrows place hopens name' hname'
    obtain ⟨directory', hroot', hshort, rfl, hdir⟩ :=
      ((h.of_alters hscope halters).opens_iff hgrows hother).1 hopens
    rw [halters.working] at hroot'
    obtain rfl := hroot'.unique (hstays s hgrows)
    have hplace : t.scene (directory' ++ [other]) = some .directory ∨
        t.scene (directory' ++ [other]) = none := by
      rw [← hsame _ (ne_of_namespace directory')]
      rcases hgrows (directory' ++ [other]) with heq | ⟨hnone, -⟩
      · exact .inl (heq.symm.trans hdir)
      · exact .inr hnone
    rcases hgrows (directory' ++ [other] ++ [name']) with heq | ⟨-, hnew⟩
    · rw [heq, hfile]
      exact htidy.sightly_of_opens h hother hroot hshort hplace hname'
    · rw [hnew]
      trivial

/-! ## All namespaces -/

/-- What happens leaves the entries of all namespaces as they are. -/
structure Leaves (root : Path) (t t' : FileTree) : Prop where
  spares : ∀ scope, IsFileName scope → Spares (root.entry scope) t t'
  unlinked : t.Unlinked root → t'.Unlinked root

theorem Leaves.refl (t : FileTree) : Leaves root t t := ⟨fun _ _ => .refl t, id⟩

theorem Leaves.trans (h : Leaves root t t') (h' : Leaves root t' t'') : Leaves root t t'' :=
  ⟨fun scope hscope => (h.spares scope hscope).trans (h'.spares scope hscope),
    fun hunlinked => h'.unlinked (h.unlinked hunlinked)⟩

private theorem Grows.leaves (h : t.Grows t') : Leaves root t t' :=
  ⟨fun _ _ => (Quiet.grows .refl h).spares, fun hunlinked => hunlinked.of_grows h⟩

theorem Quiet.leaves (hquiet : t.Quiet (root.entry scope) t') (h : t.Unlinked root)
    (hscope : IsFileName scope) : Leaves root t t' := by
  induction hquiet with
  | refl => exact .refl t
  | grows _ hgrows ih => exact ih.trans hgrows.leaves
  | @token t' _ ih =>
    refine ih.trans ⟨fun _ _ => (Quiet.token .refl).spares, fun hunlinked => hunlinked.withTokens _⟩
  | @alters t' t'' key n bytes? _ halters ih =>
    refine ih.trans ⟨fun other hother => ?_, fun hunlinked => hunlinked.of_alters hscope halters⟩
    by_cases hne : other = scope
    · subst hne
      exact (Quiet.alters .refl halters).spares
    · exact spares_of_alters (ih.unlinked h) hscope hother hne halters

/-- No namespace is a link, and in each of them every file that could come to light as an entry is
one already. -/
structure Orderly (t : FileTree) (root : Path) : Prop where
  unlinked : t.Unlinked root
  steady : ∀ scope, IsFileName scope → t.Steady (root.entry scope)

/-- A cache's directory is in order as soon as it stands and holds no links in or instead of its
namespaces. -/
theorem orderly_of_opens {directory : Place} (hroot : t.Opens root directory)
    (hscopes : ∀ scope, IsFileName scope →
      ∀ target, t.scene (directory ++ [scope]) ≠ some (.link target))
    (hlinks : ∀ scope name, IsFileName scope → IsOwnName name →
      ∀ target, t.scene (directory ++ [scope] ++ [name]) ≠ some (.link target)) :
    t.Orderly root := by
  have hstays {s : Scene} (hgrows : t.scene.Grows s) : s.Opens t.working root directory :=
    Scene.Opens.of_keeps hgrows.keeps hroot
  have hunlinked : t.Unlinked root := by
    intro s hgrows directory' hopens scope hscope target hlink
    obtain rfl := hopens.unique (hstays hgrows)
    rcases hgrows (directory' ++ [scope]) with heq | ⟨-, hdir⟩
    · rw [heq] at hlink
      exact hscopes scope hscope target hlink
    · rw [hdir] at hlink
      cases hlink
  refine ⟨hunlinked, fun scope hscope s hgrows place hopens name hname => ?_⟩
  obtain ⟨directory', hroot', hshort, rfl, -⟩ := (hunlinked.opens_iff hgrows hscope).1 hopens
  obtain rfl := hroot'.unique (hstays hgrows)
  rcases hgrows (directory' ++ [scope] ++ [name]) with heq | ⟨-, hdir⟩
  · rw [heq]
    cases hseen : t.scene (directory' ++ [scope] ++ [name]) with
    | none => trivial
    | some sight =>
      cases sight with
      | directory => trivial
      | link target => exact absurd hseen (hlinks scope name hscope hname target)
      | file bytes =>
        have hplace : t.Opens (root.entry scope) (directory' ++ [scope]) :=
          (hunlinked.opens_iff (.refl _) hscope).2
            ⟨directory', hroot, hshort, rfl, FileNode.scene_isDirectory hseen⟩
        exact fun hadmits => .inl ⟨hadmits, _, hplace, hseen⟩
  · rw [hdir]
    trivial

namespace Orderly

theorem leaves (h : t.Orderly root) (hleaves : Leaves root t t') : t'.Orderly root :=
  ⟨hleaves.unlinked h.unlinked,
    fun scope hscope => (h.steady scope hscope).spares (hleaves.spares scope hscope)⟩

theorem has_iff (h : t.Orderly root) (hleaves : Leaves root t t') (hscope : IsFileName scope)
    {key : String} {bytes : ByteArray} :
    t'.Has (root.entry scope) (fileName key) bytes ↔ t.Has (root.entry scope) (fileName key) bytes :=
  (h.steady scope hscope).has_iff (hleaves.spares scope hscope)

variable {key : String} {bytes : ByteArray}

theorem alters (h : t.Orderly root) (hscope : IsFileName scope)
    (halters : t.Alters (root.entry scope) (fileName key) (some bytes) t') : t'.Orderly root := by
  refine ⟨h.unlinked.of_alters hscope halters, fun other hother => ?_⟩
  by_cases hne : other = scope
  · subst hne
    exact (h.steady other hother).alters halters
  · exact (h.steady other hother).spares (spares_of_alters h.unlinked hscope hother hne halters)

/-- A change of one entry is not seen in any other. -/
theorem has_iff_of_alters (h : t.Orderly root) (hscope : IsFileName scope)
    (halters : t.Alters (root.entry scope) (fileName key) (some bytes) t')
    {key' : String} {bytes' : ByteArray} (hother : IsFileName other)
    (hne : ¬ (other = scope ∧ fileName key' = fileName key)) :
    t'.Has (root.entry other) (fileName key') bytes' ↔
      t.Has (root.entry other) (fileName key') bytes' := by
  by_cases hscopes : other = scope
  · subst hscopes
    exact halters.has_iff_of_ne fun hname => hne ⟨rfl, hname⟩
  · exact (h.steady other hother).has_iff
      (spares_of_alters h.unlinked hscope hother hscopes halters)

end Orderly

end FileTree
end StepScript
