import StepScript.Proofs.CacheStore
import StepScript.Proofs.Replacement

/-!
Files that may fail: a file tree in memory, and for each change that is still to come whether it is
carried out. Whatever fails while a file is replaced, either the new file stands where the path led,
and nothing else is changed, or nothing is changed at all; so an entry of a cache that could be read
before a write failed can be read after it.
-/

set_option autoImplicit false
set_option relaxedAutoImplicit false

namespace StepScript

open FileTree

/-- How a change fails: for a reason, and a file that is written has some other bytes then. -/
structure Mishap where
  reason : FileError
  part : ByteArray

abbrev Luck := List (Option Mishap)

namespace Desk

/-- What a change comes to when a mishap befalls it, or none does. -/
def befallen (change : FileTree → Change) (spoiled : Mishap → FileTree → FileTree) :
    Option Mishap → FileTree → Change
  | none, t => change t
  | some mishap, t => (.error mishap.reason, spoiled mishap t)

def risking (change : FileTree → Change) (spoiled : Mishap → FileTree → FileTree) :
    StateM (Desk Luck) (Except FileError Unit) := fun d =>
  let outcome := befallen change spoiled d.rest.head?.join d.files
  (outcome.1, ⟨outcome.2, d.rest.tail⟩)

def riskingAll (change : FileTree → Change) : StateM (Desk Luck) (Except FileError Unit) :=
  risking change fun _ t => t

/-- The files of a desk, where each change but a removal may fail. -/
def unreliable : FileAccess (StateM (Desk Luck)) :=
  { access with
    makeDirectory := fun path => riskingAll fun t => t.makeDirectory path
    create := fun path => riskingAll fun t => t.create path
    write := fun path bytes =>
      risking (fun t => t.write path bytes) fun mishap t => (t.write path mishap.part).2
    sync := fun _ => riskingAll fun t => (.ok (), t)
    rename := fun source target => riskingAll fun t => t.rename source target }

variable {d : Desk Luck} {path temporary : Path} {directory : Place} {name : String}
  {bytes : ByteArray}

private theorem yields_risking (change : FileTree → Change) (spoiled : Mishap → FileTree → FileTree)
    {q : Except FileError Unit → FileTree → Prop}
    (hchange : q (change d.files).1 (change d.files).2)
    (hspoiled : ∀ mishap : Mishap, q (.error mishap.reason) (spoiled mishap d.files)) :
    Yields (risking change spoiled) d fun r d' => q r d'.files := by
  change q (befallen change spoiled d.rest.head?.join d.files).1
    (befallen change spoiled d.rest.head?.join d.files).2
  cases d.rest.head?.join with
  | none => exact hchange
  | some mishap => exact hspoiled mishap

private theorem yields_riskingAll (change : FileTree → Change) {p : FileTree → Prop}
    (h : (∃ e, change d.files = (.error e, d.files)) ∨
      ∃ t, change d.files = (.ok (), t) ∧ p t) :
    Yields (riskingAll change) d fun r d' =>
      (∃ e, r = .error e ∧ d'.files = d.files) ∨ r = .ok () ∧ p d'.files := by
  refine yields_risking change _
    (q := fun r t => (∃ e, r = .error e ∧ t = d.files) ∨ r = .ok () ∧ p t) ?_
    fun mishap => .inl ⟨mishap.reason, rfl, rfl⟩
  rcases h with ⟨e, hchange⟩ | ⟨t, hchange, hp⟩
  · exact .inl ⟨e, by rw [hchange], by rw [hchange]⟩
  · exact .inr ⟨by rw [hchange], by rwa [hchange]⟩

/-! ## Replacing a file -/

private def Attempts (t : FileTree) (temporary path : Path) (bytes : ByteArray)
    (r : Except FileError Unit) (t' : FileTree) : Prop :=
  (r = .ok () ∧ t.Puts path bytes t') ∨
    (∃ e, r = .error e) ∧
      (t.Alike t' ∨ ∃ directory name part, t.Adds temporary directory name part t')

private theorem yields_unreliable_create (h : d.files.IsFree path) :
    Yields (unreliable.create path) d fun r d' =>
      (∃ e, r = .error e ∧ d'.files = d.files) ∨ r = .ok () ∧
        ∃ directory name, d.files.Adds path directory name ByteArray.empty d'.files := by
  refine yields_riskingAll (fun t => t.create path)
    (p := fun t => ∃ directory name, d.files.Adds path directory name ByteArray.empty t) ?_
  rcases create_of_free h with hfail | ⟨t, directory, name, hcreate, hadds⟩
  · exact .inl hfail
  · exact .inr ⟨t, hcreate, directory, name, hadds⟩

private theorem yields_unreliable_write {t : FileTree}
    (h : t.Adds path directory name bytes d.files) (next : ByteArray) :
    Yields (unreliable.write path next) d fun r d' =>
      (∃ e part, r = .error e ∧ t.Adds path directory name part d'.files) ∨
        r = .ok () ∧ t.Adds path directory name next d'.files := by
  refine yields_risking _ _ (q := fun r t' => (∃ e part, r = .error e ∧
    t.Adds path directory name part t') ∨ r = .ok () ∧ t.Adds path directory name next t') ?_ ?_
  · obtain ⟨t', hwrite, hadds⟩ := h.write next
    rw [hwrite]
    exact .inr ⟨rfl, hadds⟩
  · intro mishap
    obtain ⟨t', hwrite, hadds⟩ := h.write mishap.part
    rw [hwrite]
    exact .inl ⟨mishap.reason, mishap.part, rfl, hadds⟩

private theorem yields_unreliable_writeAndRename (h : d.files.IsFree temporary) :
    Yields (Cache.writeAndRename unreliable temporary path bytes) d fun r d' =>
      Attempts d.files temporary path bytes r d'.files := by
  unfold Cache.writeAndRename
  -- Each step fails and leaves at most the temporary file, or hands that file on to the next.
  refine (yields_unreliable_create h).bind ?_
  intro _ d₁ hpost
  rcases hpost with ⟨e, rfl, hsame⟩ | ⟨rfl, directory, name, hcreate⟩
  · exact yields_pure (.inr ⟨⟨e, rfl⟩, .inl (hsame ▸ .refl _)⟩)
  refine (yields_unreliable_write hcreate bytes).bind ?_
  intro _ d₂ hpost
  rcases hpost with ⟨e, part, rfl, hpart⟩ | ⟨rfl, hwrite⟩
  · exact yields_pure (.inr ⟨⟨e, rfl⟩, .inr ⟨directory, name, part, hpart⟩⟩)
  have hleft : ∀ d' : Desk Luck, d'.files = d₂.files →
      d.files.Adds temporary directory name bytes d'.files := fun d' hsame => hsame ▸ hwrite
  have hsync : Yields (unreliable.sync temporary) d₂ fun r d' =>
      (∃ e, r = .error e ∧ d'.files = d₂.files) ∨ r = .ok () ∧ d'.files = d₂.files :=
    yields_riskingAll _ (p := fun t => t = d₂.files) (.inr ⟨d₂.files, rfl, rfl⟩)
  refine hsync.bind ?_
  intro _ d₃ hpost
  rcases hpost with ⟨e, rfl, hsame⟩ | ⟨rfl, hsame⟩
  · exact yields_pure (.inr ⟨⟨e, rfl⟩, .inr ⟨directory, name, bytes, hleft d₃ hsame⟩⟩)
  have hrename : Yields (unreliable.rename temporary path) d₃ fun r d' =>
      (∃ e, r = .error e ∧ d'.files = d₃.files) ∨ r = .ok () ∧ d.files.Puts path bytes d'.files :=
    yields_riskingAll (fun t => t.rename temporary path) ((hleft d₃ hsame).rename path)
  refine hrename.mono ?_
  intro _ d₄ hpost
  rcases hpost with ⟨e, rfl, hsame'⟩ | ⟨rfl, hputs⟩
  · exact .inr ⟨⟨e, rfl⟩, .inr ⟨directory, name, bytes, hleft d₄ (hsame'.trans hsame)⟩⟩
  · exact .inl ⟨rfl, hputs⟩

/-- What a replacement comes to: the file in its place, or an error and nothing changed. -/
def PutsOrKeeps {ε : Type} (t : FileTree) (path : Path) (bytes : ByteArray)
    (r : Except ε Unit) (t' : FileTree) : Prop :=
  (r = .ok () ∧ t.Puts path bytes t') ∨ (∃ e, r = .error e) ∧ t.Alike t'

private theorem yields_unreliable_remove {t : FileTree} (hfree : t.IsFree temporary)
    (h : t.Alike d.files ∨ ∃ directory name part, t.Adds temporary directory name part d.files) :
    Yields (unreliable.remove temporary) d fun _ d' => t.Alike d'.files := by
  change t.Alike (d.files.remove temporary).2
  rcases h with halike | ⟨directory, name, part, hadds⟩
  · obtain ⟨e, hremove⟩ := remove_of_free (hfree.of_alike halike)
    rwa [hremove]
  · obtain ⟨t', hremove, halike⟩ := hadds.remove
    rwa [hremove]

private theorem yields_unreliable_replaceFile
    (h : d.files.IsFree (Cache.temporaryPath path (tokenText d.files.tokens))) :
    Yields (Cache.replaceFile unreliable path bytes) d fun r d' =>
      PutsOrKeeps d.files path bytes r d'.files := by
  have hfresh : Yields unreliable.freshToken d _ := yields_freshToken d
  unfold Cache.replaceFile
  refine hfresh.bind ?_
  intro _ _ hpost
  obtain ⟨rfl, rfl⟩ := hpost
  have hattempt : Yields (Cache.writeAndRename unreliable _ path bytes)
      (d.withFiles { d.files with tokens := d.files.tokens + 1 }) _ :=
    yields_unreliable_writeAndRename h
  refine hattempt.bind ?_
  intro r d₁ hpost
  rcases hpost with ⟨rfl, hputs⟩ | ⟨⟨e, rfl⟩, hleft⟩
  · exact yields_pure (.inl ⟨rfl, hputs.working, hputs.change⟩)
  · have hremove := yields_unreliable_remove (t := { d.files with tokens := d.files.tokens + 1 })
      h hleft
    refine hremove.bind ?_
    intro _ d₂ halike
    exact yields_pure (.inr ⟨⟨_, rfl⟩, halike.working, halike.scene⟩)

/-! ## Writing an entry -/

private theorem digs_unreliable : unreliable.Digs fun d d' => d.files.Grows d'.files where
  path := ⟨fun d => .refl d.files, .trans⟩
  makeDirectory path d :=
    yields_risking _ _ (q := fun _ t => d.files.Grows t) (grows_makeDirectory d.files path)
      fun _ => .refl d.files
  kind _ d := .refl d.files

variable {α : Type} [Json.Codec α] {c : Cache} {scope key : String}

private theorem yields_unreliable_writeEntry {v : α}
    (hfree : Yields (Cache.makeParent unreliable (c.pathOf scope key)) d fun r d' => r = .ok () →
      d'.files.IsFree (Cache.temporaryPath (c.pathOf scope key) (tokenText d'.files.tokens))) :
    Yields (c.write unreliable scope key v) d fun r d' => r = .ok () ∨
      d'.files.working = d.files.working ∧ d.files.scene.Grows d'.files.scene := by
  have hparent : Yields (Cache.makeParent unreliable (c.pathOf scope key)) d fun _ d' =>
      d.files.Grows d'.files := digs_unreliable.makeParent _ d
  unfold Cache.write
  refine (hparent.and hfree).bind ?_
  intro r d₁ hpost
  obtain ⟨hgrows, hfree₁⟩ := hpost
  cases r with
  | error e => exact yields_pure (.inr ⟨hgrows.working, hgrows.scene⟩)
  | ok _ =>
    refine (yields_unreliable_replaceFile (hfree₁ rfl)).mono ?_
    intro _ d₂ hpost
    rcases hpost with ⟨rfl, -⟩ | ⟨-, halike⟩
    · exact .inl rfl
    · refine .inr ⟨halike.working.trans hgrows.working, ?_⟩
      rw [halike.scene]
      exact hgrows.scene

private theorem yields_read?_some_iff {w : α} :
    Yields (c.read? unreliable scope key) d (fun r _ => r = .ok (some w)) ↔
      ∃ bytes, d.files.read (c.pathOf scope key) = .ok bytes ∧
        Json.decodeBytes? bytes = some w := by
  have hsame : (c.read? unreliable scope key : StateM (Desk Luck) (Except CacheError (Option α))) =
      c.read? access scope key := by
    unfold Cache.read?
    rfl
  rw [hsame]
  exact (yields_read?_of_file c scope key d).2 w

/-- Whatever fails, a file is replaced as a whole or nothing is changed, if neither a file nor a
link stands at the temporary path; and an entry of any namespace that could be read before a failed
write can be read after it, if neither does once the directory of the entry is made. -/
theorem replaced_or_kept (d : Desk Luck) :
    (∀ (path : Path) (bytes : ByteArray),
      d.files.IsFree (Cache.temporaryPath path (tokenText d.files.tokens)) →
        Yields (Cache.replaceFile unreliable path bytes) d fun r d' =>
          PutsOrKeeps d.files path bytes r d'.files) ∧
      ∀ {α : Type} [Json.Codec α] (c : Cache) (scope key : String) (v : α),
        Yields (Cache.makeParent unreliable (c.pathOf scope key)) d (fun r d' => r = .ok () →
          d'.files.IsFree (Cache.temporaryPath (c.pathOf scope key) (tokenText d'.files.tokens))) →
        Yields (c.write unreliable scope key v) d fun r d' => (∃ e, r = .error e) →
          ∀ {β : Type} [Json.Codec β] (other : Cache) (scope' key' : String) (w : β),
            Yields (other.read? unreliable scope' key') d (fun r _ => r = .ok (some w)) →
            Yields (other.read? unreliable scope' key') d' fun r _ => r = .ok (some w) := by
  refine ⟨fun path bytes => yields_unreliable_replaceFile, ?_⟩
  intro α _ c scope key v hfree
  refine (yields_unreliable_writeEntry hfree).mono ?_
  rintro r d' hwritten ⟨e, rfl⟩ β _ other scope' key' w hread
  obtain ⟨hworking, hgrows⟩ := hwritten.resolve_left nofun
  obtain ⟨bytes, hbytes, hvalue⟩ := yields_read?_some_iff.1 hread
  exact yields_read?_some_iff.2 ⟨bytes, read_of_grows hworking hgrows hbytes, hvalue⟩

def filedDesk : Desk Luck where
  files := ⟨.directory [("cache", .directory [("steps", .directory
    [(Cache.fileName "a", .file "\"old\"".toUTF8)])])], [], 0⟩
  rest := [none, none, none, none, some ⟨.other "input/output error", .empty⟩]

def filedPath : Path := Cache.pathOf ⟨⟨"cache"⟩⟩ "steps" "a"

private theorem isFree_of_vacant {t : FileTree} (directory : Place) (name : String)
    (h : t.spot false path = .ok (.vacant directory name)) : t.IsFree path := by
  intro place hspot
  rw [h] at hspot
  cases hspot

set_option maxRecDepth 20000 in
private theorem isFree_filedPath :
    filedDesk.files.IsFree (Cache.temporaryPath filedPath (tokenText 0)) :=
  isFree_of_vacant ["cache", "steps"] (Cache.temporaryName "a" 0) (by decide +kernel)

set_option maxRecDepth 20000 in
private theorem isFree_after_makeParent :
    Yields (Cache.makeParent unreliable filedPath) filedDesk fun r d' => r = .ok () →
      d'.files.IsFree (Cache.temporaryPath filedPath (tokenText d'.files.tokens)) :=
  fun _ => isFree_of_vacant ["cache", "steps"] (Cache.temporaryName "a" 0) (by decide +kernel)

set_option maxRecDepth 20000 in
theorem replaced_or_kept_filedDesk :
    (filedDesk.files.IsFree (Cache.temporaryPath filedPath (tokenText 0)) ∧
      Yields (Cache.replaceFile unreliable filedPath "new".toUTF8) filedDesk fun r d' =>
        PutsOrKeeps filedDesk.files filedPath "new".toUTF8 r d'.files) ∧
      Yields (Cache.write ⟨⟨"cache"⟩⟩ unreliable "steps" "a" "new") filedDesk fun r d' =>
        (∃ e, r = .error e) ∧
          Yields (Cache.read? ⟨⟨"cache"⟩⟩ unreliable "steps" "a") d' fun r _ =>
            r = .ok (some "old") := by
  have hread : Yields (Cache.read? ⟨⟨"cache"⟩⟩ unreliable "steps" "a") filedDesk fun r _ =>
      r = .ok (some "old") := by
    unfold Yields
    decide +kernel
  have hfails : ((Cache.write ⟨⟨"cache"⟩⟩ unreliable "steps" "a" "new").run filedDesk).1 =
      .error (.notReplaced filedPath "input/output error") := by
    decide +kernel
  have hkept := (replaced_or_kept filedDesk).2 ⟨⟨"cache"⟩⟩ "steps" "a" "new"
    isFree_after_makeParent
  exact ⟨⟨isFree_filedPath, (replaced_or_kept filedDesk).1 _ _ isFree_filedPath⟩, ⟨_, hfails⟩,
    hkept ⟨_, hfails⟩ _ _ _ _ hread⟩

end Desk
end StepScript
