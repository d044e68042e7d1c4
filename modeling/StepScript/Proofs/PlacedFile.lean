import StepScript.Proofs.DirectoryMaking

/-!
Where paths lead after a change at one place where no directory stands. On its way a path avoids the
place, or ends at it, or would have to go on behind it; which of these it is does not depend on what
stands there, as long as it is no directory and no link that the path follows.
-/

set_option autoImplicit false
set_option relaxedAutoImplicit false

namespace StepScript

open FileTree

def Spot.place : Spot → Place
  | .standing place => place
  | .vacant directory name => directory ++ [name]

namespace Scene

/-- How a way through a scene depends on what stands at a place: not at all, and then it does not
lead there; as a way that ends there; or as a way that goes on behind it. -/
inductive Meets {α : Type} (s : Scene) (place : Place) (ended : Spot → α) (failed : FileError → α)
    (lead : Scene → α) : Prop
  | avoids (found : α) (apart : ∀ spot, found = ended spot → spot.place ≠ place)
      (same : ∀ seen, seen ≠ some .directory → lead (s.set place seen) = found)
  | ends (directory : Place) (name : String) (at_end : directory ++ [name] = place)
      (empty : lead (s.set place none) = ended (.vacant directory name))
      (file : ∀ bytes, lead (s.set place (some (.file bytes))) = ended (.standing place))
  | passes (empty : lead (s.set place none) = failed .notFound)
      (file : ∀ bytes, lead (s.set place (some (.file bytes))) = failed .notADirectory)

variable {s : Scene} {put : Place}

private theorem Meets.congr {α : Type} {ended : Spot → α} {failed : FileError → α}
    {lead lead' : Scene → α} (h : s.Meets put ended failed lead)
    (heq : ∀ seen, seen ≠ some .directory → lead' (s.set put seen) = lead (s.set put seen)) :
    s.Meets put ended failed lead' := by
  have hnone : (none : Option Sight) ≠ some .directory := nofun
  have hfile (bytes : ByteArray) : some (Sight.file bytes) ≠ some .directory := nofun
  cases h with
  | avoids found apart same =>
    exact .avoids found apart fun seen h => by rw [heq seen h, same seen h]
  | ends directory name at_end empty file =>
    exact .ends directory name at_end (by rw [heq _ hnone, empty]) fun bytes => by
      rw [heq _ (hfile bytes), file]
  | passes empty file =>
    exact .passes (by rw [heq _ hnone, empty]) fun bytes => by rw [heq _ (hfile bytes), file]

private theorem Meets.error {lead : Scene → Except FileError Spot} (e : FileError)
    (same : ∀ seen, seen ≠ some .directory → lead (s.set put seen) = .error e) :
    s.Meets put Except.ok .error lead :=
  .avoids (.error e) (fun spot h => by cases h) same

/-! ## Names up to a link -/

private theorem dropLast_ne {place : Place} (hbelow : ∀ name, s (put ++ [name]) = none)
    (hne : place ≠ put) (hdir : s place = some .directory) : place.dropLast ≠ put := by
  intro hput
  rcases List.eq_nil_or_concat place with rfl | ⟨above, last, rfl⟩
  · exact hne hput
  · rw [List.concat_eq_append, List.dropLast_concat] at hput
    subst hput
    rw [List.concat_eq_append, hbelow last] at hdir
    cases hdir

private theorem meets_enter_same {directory : Place} {name : String} (follow : Bool)
    (rest : List String) (hput : directory ++ [name] = put) :
    s.Meets put Halt.ended .failed fun s => s.enter follow directory name rest := by
  subst hput
  cases rest with
  | nil => exact .ends directory name rfl (by simp [enter]) (by simp [enter, roam])
  | cons next rest => exact .passes (by simp [enter]) (by simp [enter, roam])

private theorem meets_enter_other {directory : Place} {name : String} (follow : Bool)
    {rest : List String} (hput : directory ++ [name] ≠ put)
    (hrest : s.Meets put Halt.ended .failed fun s => s.roam follow (directory ++ [name]) rest) :
    s.Meets put Halt.ended .failed fun s => s.enter follow directory name rest := by
  have hnext (seen : Option Sight) :
      s.set put seen (directory ++ [name]) = s (directory ++ [name]) := s.set_of_ne seen hput
  cases hseen : s (directory ++ [name]) with
  | none =>
    refine .avoids (if rest.isEmpty then .ended (.vacant directory name) else .failed .notFound)
      (fun spot h => ?_) fun seen _ => by rw [enter, hnext, hseen]
    split at h
    · cases h
      exact hput
    · cases h
  | some sight =>
    cases sight with
    | link target =>
      refine .avoids (if rest.isEmpty && !follow then .ended (.standing (directory ++ [name]))
        else .link directory target rest) (fun spot h => ?_) fun seen _ => by
          rw [enter, hnext, hseen]
      split at h
      · cases h
        exact hput
      · cases h
    | file bytes => exact hrest.congr fun seen _ => by rw [enter, hnext, hseen]
    | directory => exact hrest.congr fun seen _ => by rw [enter, hnext, hseen]

private theorem meets_roam {place : Place} (hbelow : ∀ name, s (put ++ [name]) = none)
    (follow : Bool) (names : List String) (hne : place ≠ put) :
    s.Meets put Halt.ended .failed fun s => s.roam follow place names := by
  induction names generalizing place with
  | nil =>
    refine .avoids (.ended (.standing place)) (fun spot h => ?_) fun _ _ => rfl
    cases h
    exact hne
  | cons name rest ih =>
    have hsame (seen : Option Sight) : s.set put seen place = s place := s.set_of_ne seen hne
    by_cases hdir : s place = some .directory
    swap
    · refine .avoids (.failed .notADirectory) nofun fun seen _ => ?_
      exact roam_of_not_directory (by rwa [hsame])
    have hstand (seen : Option Sight) : s.set put seen place = some .directory :=
      (hsame seen).trans hdir
    by_cases hdot : name = "."
    · exact (ih hne).congr fun seen _ => by rw [roam_of_directory (hstand seen), if_pos hdot]
    by_cases hup : name = ".."
    · exact (ih (dropLast_ne hbelow hne hdir)).congr fun seen _ => by
        rw [roam_of_directory (hstand seen), if_neg hdot, if_pos hup]
    by_cases hlong : name.utf8ByteSize > nameLimit
    · exact .avoids (.failed .nameTooLong) nofun fun seen _ => by
        rw [roam_of_directory (hstand seen), if_neg hdot, if_neg hup, if_pos hlong]
    suffices henter : s.Meets put Halt.ended .failed fun s => s.enter follow place name rest from
      henter.congr fun seen _ => by
        rw [roam_of_directory (hstand seen), if_neg hdot, if_neg hup, if_neg hlong]
    by_cases hput : place ++ [name] = put
    · exact meets_enter_same follow rest hput
    · exact meets_enter_other follow hput (ih hput)

private theorem isDirectory_of_roam_link {follow : Bool} {place seenFrom : Place}
    {names left : List String}
    {target : String} (h : s.roam follow place names = .link seenFrom target left) :
    s seenFrom = some .directory := by
  fun_induction roam s follow place names with
  | case1 => cases h
  | case2 place name rest hdir _ ih => exact ih h
  | case3 place name rest hdir _ _ ih => exact ih h
  | case4 => cases h
  | case5 => cases h
  | case6 => cases h
  | case7 => cases h
  | case8 place name rest hdir _ _ _ linked hnext _ =>
    cases h
    exact hdir
  | case9 place name rest hdir _ _ _ seen hnext _ ih => exact ih h
  | case10 => cases h

/-! ## Names and links -/

private theorem meets_settle_of {place : Place} {follow : Bool} {links : Nat} {names : List String}
    (hbelow : ∀ name, s (put ++ [name]) = none) (hroot : put ≠ []) (hne : place ≠ put)
    (hless : ∀ less, links = less + 1 → ∀ start names, start ≠ put →
      s.Meets put Except.ok .error fun s => s.settle follow less start names) :
    s.Meets put Except.ok .error fun s => s.settle follow links place names := by
  cases meets_roam hbelow follow names hne with
  | ends directory name at_end empty file =>
    refine .ends directory name at_end ?_ fun bytes => ?_
    · rw [settle, empty]
    · rw [settle, file]
  | passes empty file =>
    refine .passes ?_ fun bytes => ?_
    · rw [settle, empty]
    · rw [settle, file]
  | avoids halt apart same =>
    cases halt with
    | ended spot =>
      refine .avoids (.ok spot) (fun other h => ?_) fun seen h => by rw [settle, same seen h]
      cases h
      exact apart spot rfl
    | failed e => exact .error e fun seen h => by rw [settle, same seen h]
    | link seenFrom target left =>
      -- Behind a link the way starts anew, with one link less to follow.
      cases links with
      | zero => exact .error .tooManyLinks fun seen h => by rw [settle, same seen h]
      | succ less =>
        have hstart : (if (Path.mk target).isAbsolute then [] else seenFrom) ≠ put := by
          split
          · exact hroot.symm
          · rintro rfl
            have hdir := isDirectory_of_roam_link (same none (by simp))
            rw [set_same] at hdir
            cases hdir
        exact (hless less rfl _ (piecesOf target ++ left) hstart).congr fun seen h => by
          rw [settle, same seen h]

private theorem meets_settle {place : Place} (hbelow : ∀ name, s (put ++ [name]) = none)
    (hroot : put ≠ []) (follow : Bool) (links : Nat) (names : List String) (hne : place ≠ put) :
    s.Meets put Except.ok .error fun s => s.settle follow links place names := by
  induction links generalizing place names with
  | zero =>
    refine meets_settle_of hbelow hroot hne fun less hless => ?_
    omega
  | succ links ih =>
    refine meets_settle_of hbelow hroot hne ?_
    rintro less ⟨⟩ start names hstart
    exact ih names hstart

/-! ## Paths -/

def lead (s : Scene) (working : Place) (follow : Bool) (path : Path) : Except FileError Spot :=
  match refusal? path.text with
  | some e => .error e
  | none =>
    match s.origin? working path with
    | some place => s.settle follow linkLimit place (piecesOf path.text)
    | none => .error .notFound

end Scene

private theorem FileTree.piecesOf_ne_nil {path : Path} (hempty : path.text ≠ "")
    (hrelative : path.isAbsolute = false) : piecesOf path.text ≠ [] := by
  obtain ⟨c, cs, hcs⟩ : ∃ c cs, path.text.toList = c :: cs :=
    List.exists_cons_of_ne_nil fun h => hempty (String.toList_inj.1 h)
  have hc : c ≠ '/' := by
    rintro rfl
    rw [Path.isAbsolute, hcs] at hrelative
    cases hrelative
  have hfirst : ∃ piece ∈ path.pieces, piece ≠ "" := by
    rw [Path.pieces, hcs, Text.splitAtEach, if_neg hc]
    split
    · exact ⟨String.ofList [c], by simp, by simp [String.ext_iff]⟩
    · next piece pieces _ => exact ⟨String.ofList (c :: piece), by simp, by simp [String.ext_iff]⟩
  obtain ⟨piece, hmem, hne⟩ := hfirst
  have hnames : piece ∈ path.pieces.filter fun piece => piece != "" :=
    List.mem_filter.2 ⟨hmem, by simpa using hne⟩
  simp only [piecesOf]
  split
  · simp
  · exact List.ne_nil_of_mem hnames

namespace Scene

variable {s : Scene} {put : Place}

private theorem meets_lead_relative {path : Path} {working : Place}
    (hbelow : ∀ name, s (put ++ [name]) = none) (hroot : put ≠ []) (follow : Bool)
    (hrefusal : refusal? path.text = none) (hrelative : path.isAbsolute = false) :
    s.Meets put Except.ok .error fun s => s.lead working follow path := by
  by_cases hput : working = put
  · subst hput
    have hempty : path.text ≠ "" := by
      intro hempty
      rw [hempty] at hrefusal
      revert hrefusal
      decide
    refine .passes ?_ fun bytes => ?_
    · simp [lead, hrefusal, origin?, hrelative]
    · obtain ⟨name, rest, hnames⟩ := List.exists_cons_of_ne_nil (piecesOf_ne_nil hempty hrelative)
      simp [lead, hrefusal, origin?, hrelative, hnames, settle, roam]
  · have hsame (seen : Option Sight) : s.set put seen working = s working := s.set_of_ne seen hput
    cases hworking : s working with
    | none =>
      refine .error .notFound fun seen _ => ?_
      simp [lead, hrefusal, origin?, hrelative, hsame, hworking]
    | some sight =>
      refine (meets_settle hbelow hroot follow linkLimit (piecesOf path.text) hput).congr
        fun seen _ => ?_
      simp [lead, hrefusal, origin?, hrelative, hsame, hworking]

theorem meets_lead (hbelow : ∀ name, s (put ++ [name]) = none) (hroot : put ≠ []) (working : Place)
    (follow : Bool) (path : Path) :
    s.Meets put Except.ok .error fun s => s.lead working follow path := by
  cases hrefusal : refusal? path.text with
  | some e => exact .error e fun seen _ => by rw [lead, hrefusal]
  | none =>
    cases habsolute : path.isAbsolute with
    | false => exact meets_lead_relative hbelow hroot follow hrefusal habsolute
    | true =>
      refine (meets_settle hbelow hroot follow linkLimit (piecesOf path.text) hroot.symm).congr
        fun seen _ => ?_
      simp [lead, hrefusal, origin?, habsolute]

/-! ## Links at the end -/

private theorem enter_follow {directory : Place} {name : String} {rest : List String}
    (h : ∀ place target, s.enter false directory name rest = .ended (.standing place) →
      s place ≠ some (.link target))
    (hrest : (∀ place target, s.roam false (directory ++ [name]) rest = .ended (.standing place) →
        s place ≠ some (.link target)) →
      s.roam true (directory ++ [name]) rest = s.roam false (directory ++ [name]) rest) :
    s.enter true directory name rest = s.enter false directory name rest := by
  unfold enter at h ⊢
  cases hseen : s (directory ++ [name]) with
  | none => rfl
  | some sight =>
    rw [hseen] at h
    cases sight with
    | file bytes => exact hrest h
    | directory => exact hrest h
    | link target =>
      cases rest with
      | nil => exact absurd hseen (h _ target rfl)
      | cons next rest => rfl

private theorem roam_follow {place : Place} {names : List String}
    (h : ∀ other target, s.roam false place names = .ended (.standing other) →
      s other ≠ some (.link target)) :
    s.roam true place names = s.roam false place names := by
  induction names generalizing place with
  | nil => rfl
  | cons name rest ih =>
    by_cases hdir : s place = some .directory
    swap
    · rw [roam_of_not_directory hdir, roam_of_not_directory hdir]
    rw [roam_of_directory hdir] at h
    rw [roam_of_directory hdir, roam_of_directory hdir]
    by_cases hdot : name = "."
    · rw [if_pos hdot] at h
      rw [if_pos hdot, if_pos hdot, ih h]
    by_cases hup : name = ".."
    · rw [if_neg hdot, if_pos hup] at h
      rw [if_neg hdot, if_pos hup, if_neg hdot, if_pos hup, ih h]
    by_cases hlong : name.utf8ByteSize > nameLimit
    · simp only [hdot, hup, hlong, if_true, if_false]
    · simp only [hdot, hup, hlong, if_false] at h ⊢
      exact enter_follow h ih

private theorem settle_follow {links : Nat} {place : Place} {names : List String}
    (h : ∀ other target, s.settle false links place names = .ok (.standing other) →
      s other ≠ some (.link target)) :
    s.settle true links place names = s.settle false links place names := by
  fun_induction settle s false links place names with
  | case1 links place names spot hroam =>
    have hsame := roam_follow fun other target hother => by
      rw [hroam] at hother
      cases hother
      exact h other target rfl
    rw [settle, hsame, hroam]
  | case2 links place names e hroam =>
    have hsame : s.roam true place names = s.roam false place names :=
      roam_follow (by simp [hroam])
    rw [settle, hsame, hroam]
  | case3 place names seenFrom target left hroam =>
    have hsame : s.roam true place names = s.roam false place names :=
      roam_follow (by simp [hroam])
    rw [settle, hsame, hroam]
  | case4 place names seenFrom target left hroam links start ih =>
    have hsame : s.roam true place names = s.roam false place names :=
      roam_follow (by simp [hroam])
    rw [settle, hsame, hroam]
    exact ih h

theorem lead_follow {working : Place} {path : Path}
    (h : ∀ place target, s.lead working false path = .ok (.standing place) →
      s place ≠ some (.link target)) (follow : Bool) :
    s.lead working follow path = s.lead working false path := by
  cases follow with
  | false => rfl
  | true =>
    unfold lead at h ⊢
    cases hrefusal : refusal? path.text with
    | some e => rfl
    | none =>
      cases horigin : s.origin? working path with
      | none => rfl
      | some start =>
        rw [hrefusal, horigin] at h
        exact settle_follow h

/-! ## A file at the end -/

/-- A path that leads to a place leads to the file that is put there, unless it goes on behind a
link that the file takes the place of. -/
theorem lead_file {working : Place} {path : Path} {spot : Spot} (bytes : ByteArray)
    (hput : s put ≠ some .directory) (hbelow : ∀ name, s (put ++ [name]) = none) (hroot : put ≠ [])
    (h : s.lead working false path = .ok spot) (hspot : spot.place = put) (follow : Bool) :
    (s.set put (some (.file bytes))).lead working follow path = .ok (.standing put) ∨
      (∃ target, s put = some (.link target)) ∧
        (s.set put (some (.file bytes))).lead working follow path = .error .notADirectory := by
  have hfollow (r : Except FileError Spot)
      (hr : (s.set put (some (.file bytes))).lead working false path = r)
      (hlink : ∀ place, r = .ok (.standing place) → place = put) :
      (s.set put (some (.file bytes))).lead working follow path = r := by
    rw [lead_follow, hr]
    intro place target hplace
    rw [hr] at hplace
    rw [hlink place hplace, set_same]
    exact nofun
  cases meets_lead hbelow hroot working false path with
  | avoids found apart same =>
    have hfound := same (s put) hput
    rw [set_self, h] at hfound
    exact absurd hspot (apart spot hfound.symm)
  | ends directory name at_end empty file =>
    refine .inl (hfollow _ (file bytes) ?_)
    rintro _ ⟨⟩
    rfl
  | passes empty file =>
    refine .inr ⟨?_, hfollow _ (file bytes) nofun⟩
    cases hseen : s put with
    | none =>
      rw [← hseen, set_self, h] at empty
      cases empty
    | some sight =>
      cases sight with
      | link target => exact ⟨target, rfl⟩
      | directory => exact absurd hseen hput
      | file old =>
        have hold := file old
        rw [← hseen, set_self, h] at hold
        cases hold

/-! ## What is kept when directories are made -/

private theorem Grows.lead {s' : Scene} (h : s.Grows s') {working place : Place} {path : Path}
    (hlead : s.lead working true path = .ok (.standing place)) :
    s'.lead working true path = .ok (.standing place) := by
  unfold Scene.lead at hlead ⊢
  cases hrefusal : refusal? path.text with
  | some e =>
    rw [hrefusal] at hlead
    cases hlead
  | none =>
    cases horigin : s.origin? working path with
    | none =>
      rw [hrefusal, horigin] at hlead
      cases hlead
    | some start =>
      have horigin' : s'.origin? working path = some start := by
        refine origin?_of_isSome horigin fun hsome => ?_
        obtain ⟨there, hthere⟩ := Option.isSome_iff_exists.1 hsome
        rw [h.apply_of_some hthere]
        rfl
      rw [hrefusal, horigin] at hlead
      rw [horigin']
      exact settle_keeps h.keeps hlead fun bytes hfile => ⟨bytes, h.apply_of_some hfile⟩

end Scene

namespace FileTree

variable {t t' : FileTree} {path : Path} {place : Place} {bytes : ByteArray}

theorem spot_eq_lead (t : FileTree) (follow : Bool) (path : Path) :
    t.spot follow path = t.scene.lead t.working follow path := rfl

theorem read_of_error {e : FileError} (h : t.spot true path = .error e) :
    t.read path = .error e := by
  rw [read, node, resolve_of_error h]

theorem read_of_grows (hworking : t'.working = t.working) (hscene : t.scene.Grows t'.scene)
    (h : t.read path = .ok bytes) : t'.read path = .ok bytes := by
  obtain ⟨place, hspot, hseen⟩ := read_eq_ok_iff.1 h
  refine read_eq_ok_iff.2 ⟨place, ?_, hscene.apply_of_some hseen⟩
  rw [spot_eq_lead, hworking]
  exact hscene.lead hspot

end FileTree
end StepScript
