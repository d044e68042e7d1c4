import StepScript.Files.Tree
import StepScript.Proofs.Along
import StepScript.Proofs.CacheFiles

/-!
A cache over a file tree in memory. What is written is read back, as long as the tree is tidy; a
write that fails leaves every entry as it is, and one that succeeds changes only its own.
-/

set_option autoImplicit false
set_option relaxedAutoImplicit false

namespace StepScript

open FileTree

instance decidableEqExcept {ε α : Type} [DecidableEq ε] [DecidableEq α] :
    DecidableEq (Except ε α)
  | .error e, .error e' => decidable_of_iff (e = e') ⟨congrArg _, Except.error.inj⟩
  | .ok a, .ok a' => decidable_of_iff (a = a') ⟨congrArg _, Except.ok.inj⟩
  | .error _, .ok _ => isFalse nofun
  | .ok _, .error _ => isFalse nofun

structure Desk (ρ : Type) where
  files : FileTree
  rest : ρ

namespace Desk

variable {ρ α β : Type}

instance : MonadStateOf FileTree (StateM (Desk ρ)) where
  get d := (d.files, d)
  set t d := ((), { d with files := t })
  modifyGet f d := ((f d.files).1, { d with files := (f d.files).2 })

def withFiles (d : Desk ρ) (t : FileTree) : Desk ρ := { d with files := t }

private theorem rest_withFiles (d : Desk ρ) (t : FileTree) : (d.withFiles t).rest = d.rest := rfl

abbrev access : FileAccess (StateM (Desk ρ)) := FileAccess.inMemory

/-- What a run from a desk comes to, and the desk that it leaves. -/
def Yields (x : StateM (Desk ρ) α) (d : Desk ρ) (q : α → Desk ρ → Prop) : Prop :=
  q (x.run d).1 (x.run d).2

theorem Yields.bind {x : StateM (Desk ρ) α} {f : α → StateM (Desk ρ) β} {d : Desk ρ}
    {q : α → Desk ρ → Prop} {r : β → Desk ρ → Prop} (hx : Yields x d q)
    (hf : ∀ a d', q a d' → Yields (f a) d' r) : Yields (x >>= f) d r :=
  hf _ _ hx

theorem Yields.mono {x : StateM (Desk ρ) α} {d : Desk ρ} {q r : α → Desk ρ → Prop}
    (hx : Yields x d q) (hqr : ∀ a d', q a d' → r a d') : Yields x d r :=
  hqr _ _ hx

theorem Yields.and {x : StateM (Desk ρ) α} {d : Desk ρ} {q r : α → Desk ρ → Prop}
    (hq : Yields x d q) (hr : Yields x d r) : Yields x d fun a d' => q a d' ∧ r a d' :=
  ⟨hq, hr⟩

theorem yields_pure {a : α} {d : Desk ρ} {q : α → Desk ρ → Prop} (h : q a d) :
    Yields (pure a) d q := h

theorem run_bind (x : StateM (Desk ρ) α) (f : α → StateM (Desk ρ) β) (d : Desk ρ) :
    (x >>= f).run d = (f (x.run d).1).run (x.run d).2 := rfl

theorem yields_run (x : StateM (Desk ρ) α) (d : Desk ρ) :
    Yields x d fun a d' => a = (x.run d).1 ∧ d' = (x.run d).2 := ⟨rfl, rfl⟩

theorem yields_read (d : Desk ρ) (path : Path) :
    Yields (access.read path) d fun r d' => r = d.files.read path ∧ d' = d := ⟨rfl, rfl⟩

theorem yields_freshToken (d : Desk ρ) :
    Yields access.freshToken d fun token d' => token = tokenText d.files.tokens ∧
      d' = d.withFiles { d.files with tokens := d.files.tokens + 1 } := ⟨rfl, rfl⟩

private def Digs (d d' : Desk ρ) : Prop := d.files.Grows d'.files ∧ d'.rest = d.rest

private theorem Digs.refl (d : Desk ρ) : d.Digs d := ⟨.refl _, rfl⟩

private theorem Digs.trans {d d' d'' : Desk ρ} (h : d.Digs d') (h' : d'.Digs d'') : d.Digs d'' :=
  ⟨h.1.trans h'.1, h'.2.trans h.2⟩

private theorem yields_makeDirectory (d : Desk ρ) (path : Path) :
    Yields (access.makeDirectory path) d fun _ d' => d.Digs d' :=
  ⟨grows_makeDirectory d.files path, d.rest_withFiles _⟩

private theorem digs_access : (access : FileAccess (StateM (Desk ρ))).Digs Digs where
  path := ⟨Digs.refl, Digs.trans⟩
  makeDirectory path d := yields_makeDirectory d path
  kind _ d := Digs.refl d

private theorem yields_makeParent (d : Desk ρ) (path : Path) :
    Yields (Cache.makeParent access path) d fun _ d' => d.Digs d' :=
  digs_access.makeParent path d

private theorem yields_change (f : FileTree → Change) (p : FileTree → Prop) {d : Desk ρ}
    (h : (∃ e, f d.files = (.error e, d.files)) ∨ ∃ t, f d.files = (.ok (), t) ∧ p t) :
    Yields (FileAccess.changeWith f) d fun r d' =>
      (∃ e, r = .error e ∧ d' = d) ∨ r = .ok () ∧ d'.rest = d.rest ∧ p d'.files := by
  change (∃ e, (f d.files).1 = .error e ∧ d.withFiles (f d.files).2 = d) ∨
    (f d.files).1 = .ok () ∧ d.rest = d.rest ∧ p (f d.files).2
  rcases h with ⟨e, hf⟩ | ⟨t, hf, hp⟩
  · rw [hf]
    exact .inl ⟨e, rfl, rfl⟩
  · rw [hf]
    exact .inr ⟨rfl, rfl, hp⟩

/-! ## Writing and reading -/

/-- What a write comes to: with success the entry has the bytes, and otherwise, but for temporary
files, everything is as it was. -/
def Replaces {ε : Type} (dir : Path) (key : String) (bytes : ByteArray) (d : Desk ρ)
    (r : Except ε Unit) (d' : Desk ρ) : Prop :=
  d'.rest = d.rest ∧
    ((∃ between, r = .ok () ∧ d.files.Quiet dir between ∧
        between.Alters dir (Cache.fileName key) (some bytes) d'.files) ∨
      ((∃ e, r = .error e) ∧ d.files.Quiet dir d'.files))

abbrev Clean (d : Desk ρ) (dir : Path) : Prop := d.files.Tidy dir fun _ _ => True

variable {dir : Path}

private theorem Clean.quiet {d : Desk ρ} {t : FileTree} (h : d.Clean dir)
    (hquiet : d.files.Quiet dir t) : t.Tidy dir fun _ _ => True :=
  hquiet.tidy h fun _ _ _ => trivial

variable {d : Desk ρ} {key : String} {n : Nat}

private theorem yields_create (hclean : d.Clean dir) :
    Yields (access.create (dir.entry (Cache.temporaryName key n))) d fun r d' =>
      (∃ e, r = .error e ∧ d' = d) ∨ r = .ok () ∧ d'.rest = d.rest ∧
        d.files.Alters dir (Cache.temporaryName key n) (some ByteArray.empty) d'.files :=
  have howned := Cache.isOwnName_temporaryName key n
  yields_change (fun t => t.create _) (d.files.Alters dir _ (some ByteArray.empty))
    (create_entry howned.isFileName (hclean.linkFree howned))

private theorem yields_fill (hclean : d.Clean dir) (bytes : ByteArray) :
    Yields (access.write (dir.entry (Cache.temporaryName key n)) bytes) d fun r d' =>
      (∃ e, r = .error e ∧ d' = d) ∨ r = .ok () ∧ d'.rest = d.rest ∧
        d.files.Alters dir (Cache.temporaryName key n) (some bytes) d'.files :=
  have howned := Cache.isOwnName_temporaryName key n
  yields_change (fun t => t.write _ bytes) (d.files.Alters dir _ (some bytes))
    (write_entry howned.isFileName (hclean.linkFree howned) bytes)

private theorem yields_rename {bytes : ByteArray} (hclean : d.Clean dir)
    (hhas : d.files.Has dir (Cache.temporaryName key n) bytes) :
    Yields (access.rename (dir.entry (Cache.temporaryName key n)) (dir.entry (Cache.fileName key))) d
      fun r d' => (∃ e, r = .error e ∧ d' = d) ∨ r = .ok () ∧ d'.rest = d.rest ∧
        ∃ between, d.files.Alters dir (Cache.temporaryName key n) none between ∧
          between.Alters dir (Cache.fileName key) (some bytes) d'.files := by
  have howned := Cache.isOwnName_temporaryName key n
  have hentry := Cache.isOwnName_fileName key
  have hne := Cache.fileName_ne_temporaryName key key n
  refine yields_change (fun t => t.rename _ _) (fun t => ∃ between,
    d.files.Alters dir (Cache.temporaryName key n) none between ∧
      between.Alters dir (Cache.fileName key) (some bytes) t) ?_
  rcases rename_entry howned.isFileName (hclean.linkFree howned) hentry.isFileName
    (hclean.linkFree hentry) hne with hfail | ⟨found, between, t, hrename, hfound, htake, hput⟩
  · exact .inl hfail
  · obtain rfl := hfound.unique hhas
    exact .inr ⟨t, hrename, between, htake, hput⟩

private theorem yields_writeAndRename (hclean : d.Clean dir) (bytes : ByteArray) :
    Yields (Cache.writeAndRename access (dir.entry (Cache.temporaryName key n))
      (dir.entry (Cache.fileName key)) bytes) d (Replaces dir key bytes d) := by
  unfold Cache.writeAndRename
  refine (yields_create hclean).bind ?_
  intro _ d₁ hpost
  rcases hpost with ⟨e, rfl, rfl⟩ | ⟨rfl, hrest₁, hcreate⟩
  · exact yields_pure ⟨rfl, .inr ⟨⟨e, rfl⟩, .refl⟩⟩
  have hquiet₁ : d.files.Quiet dir d₁.files := .alters .refl hcreate
  refine (yields_fill (hclean.quiet hquiet₁) bytes).bind ?_
  intro _ d₂ hpost
  rcases hpost with ⟨e, rfl, rfl⟩ | ⟨rfl, hrest₂, hwrite⟩
  · exact yields_pure ⟨hrest₁, .inr ⟨⟨e, rfl⟩, hquiet₁⟩⟩
  have hquiet₂ : d.files.Quiet dir d₂.files := .alters hquiet₁ hwrite
  have hsync : Yields (access.sync (dir.entry (Cache.temporaryName key n))) d₂
      fun r d' => r = .ok () ∧ d' = d₂ := ⟨rfl, rfl⟩
  refine hsync.bind ?_
  intro _ _ hpost
  obtain ⟨rfl, rfl⟩ := hpost
  refine (yields_rename (hclean.quiet hquiet₂) hwrite.has_same).mono ?_
  intro _ d₄ hpost
  rcases hpost with ⟨e, rfl, rfl⟩ | ⟨rfl, hrest₄, between, htake, hput⟩
  · exact ⟨hrest₂.trans hrest₁, .inr ⟨⟨e, rfl⟩, hquiet₂⟩⟩
  · exact ⟨hrest₄.trans (hrest₂.trans hrest₁),
      .inl ⟨between, rfl, .alters hquiet₂ htake, hput⟩⟩

private theorem yields_remove (hclean : d.Clean dir) :
    Yields (access.remove (dir.entry (Cache.temporaryName key n))) d fun r d' =>
      (∃ e, r = .error e ∧ d' = d) ∨ r = .ok () ∧ d'.rest = d.rest ∧
        d.files.Alters dir (Cache.temporaryName key n) none d'.files :=
  have howned := Cache.isOwnName_temporaryName key n
  yields_change (fun t => t.remove _) (d.files.Alters dir _ none)
    (remove_entry howned.isFileName (hclean.linkFree howned))

variable {c : Cache} {scope : String}

private theorem Replaces.of_quiet {ε : Type} {bytes : ByteArray} {d' d'' : Desk ρ}
    {r : Except ε Unit} (hquiet : d.files.Quiet dir d'.files) (hrest : d'.rest = d.rest)
    (h : Replaces dir key bytes d' r d'') : Replaces dir key bytes d r d'' := by
  obtain ⟨hrest', hdone⟩ := h
  refine ⟨hrest'.trans hrest, ?_⟩
  rcases hdone with ⟨between, hr, hbetween, hput⟩ | ⟨hr, hlast⟩
  · exact .inl ⟨between, hr, hquiet.trans hbetween, hput⟩
  · exact .inr ⟨hr, hquiet.trans hlast⟩

private theorem yields_replaceFile (hclean : d.Clean (c.directory scope)) (bytes : ByteArray) :
    Yields (Cache.replaceFile access (c.pathOf scope key) bytes) d
      (Replaces (c.directory scope) key bytes d) := by
  unfold Cache.replaceFile
  refine (yields_freshToken d).bind ?_
  intro _ _ hpost
  obtain ⟨rfl, rfl⟩ := hpost
  rw [Cache.temporaryPath_pathOf]
  have hquiet : d.files.Quiet (c.directory scope)
      (d.withFiles { d.files with tokens := d.files.tokens + 1 }).files := .token .refl
  refine (yields_writeAndRename (hclean.quiet hquiet) bytes).bind ?_
  intro r d₁ hreplaces
  obtain ⟨hrest, ⟨between, rfl, hbetween, hput⟩ | ⟨⟨e, rfl⟩, hfailed⟩⟩ := hreplaces.of_quiet hquiet rfl
  · exact yields_pure ⟨hrest, .inl ⟨between, rfl, hbetween, hput⟩⟩
  · refine (yields_remove (hclean.quiet hfailed)).bind ?_
    intro _ d₂ hpost
    rcases hpost with ⟨e, rfl, rfl⟩ | ⟨rfl, hrest₂, hremoved⟩
    · exact yields_pure ⟨hrest, .inr ⟨⟨_, rfl⟩, hfailed⟩⟩
    · exact yields_pure ⟨hrest₂.trans hrest, .inr ⟨⟨_, rfl⟩, .alters hfailed hremoved⟩⟩

/-- A write replaces the bytes of its entry, or fails and changes no entry. -/
theorem yields_write {α : Type} [Json.Codec α] (hclean : d.Clean (c.directory scope)) (v : α) :
    Yields (c.write access scope key v) d
      (Replaces (c.directory scope) key (Json.Codec.encode v).indented.toUTF8 d) := by
  unfold Cache.write
  refine (yields_makeParent d _).bind ?_
  intro r d₁ hpost
  obtain ⟨hgrows, hrest⟩ := hpost
  have hquiet : d.files.Quiet (c.directory scope) d₁.files := .grows .refl hgrows
  cases r with
  | error e => exact yields_pure ⟨hrest, .inr ⟨⟨_, rfl⟩, hquiet⟩⟩
  | ok _ =>
    exact (yields_replaceFile (hclean.quiet hquiet) _).mono fun _ _ h => h.of_quiet hquiet hrest

theorem yields_read?_of_file {α : Type} [Json.Codec α] (c : Cache) (scope key : String)
    (d : Desk ρ) :
    Yields (c.read? access scope key : StateM (Desk ρ) (Except CacheError (Option α))) d
      fun r d' => d' = d ∧ ∀ v, r = .ok (some v) ↔
        ∃ bytes, d.files.read (c.pathOf scope key) = .ok bytes ∧
          Json.decodeBytes? bytes = some v := by
  unfold Cache.read?
  refine (yields_read d _).bind ?_
  intro r d' hpost
  obtain ⟨hr, rfl⟩ := hpost
  -- To replace what is read by its name, in this direction, takes no evaluation of it.
  obtain rfl := hr.symm
  cases hread : d'.files.read (c.pathOf scope key) with
  | error e =>
    have hnone (r : Except CacheError (Option α)) (hr : ∀ v, r ≠ .ok (some v)) (v : α) :
        r = .ok (some v) ↔ ∃ bytes, (.error e : Except FileError ByteArray) = .ok bytes ∧
          Json.decodeBytes? bytes = some v :=
      ⟨fun h => absurd h (hr v), fun ⟨_, h, _⟩ => nomatch h⟩
    cases e with
    | notFound => exact yields_pure ⟨rfl, hnone _ nofun⟩
    | _ => exact yields_pure ⟨rfl, hnone _ nofun⟩
  | ok bytes =>
    have hvalue (v : α) : (∃ other, (.ok bytes : Except FileError ByteArray) = .ok other ∧
        Json.decodeBytes? other = some v) ↔ Json.decodeBytes? bytes = some v := by
      simp
    simp only [hvalue]
    cases (Json.decodeBytes? bytes : Option α) with
    | none => exact yields_pure ⟨rfl, fun v => ⟨nofun, nofun⟩⟩
    | some found => exact yields_pure ⟨rfl, fun v => by simp⟩

theorem yields_read? {α : Type} [Json.Codec α] (hclean : d.Clean (c.directory scope)) :
    Yields (c.read? access scope key : StateM (Desk ρ) (Except CacheError (Option α))) d
      fun r d' => d' = d ∧ ∀ v, r = .ok (some v) ↔
        ∃ bytes, d.files.Has (c.directory scope) (Cache.fileName key) bytes ∧
          Json.decodeBytes? bytes = some v := by
  have hiff (bytes : ByteArray) : d.files.read (c.pathOf scope key) = .ok bytes ↔ _ :=
    hclean.read_iff (Cache.isOwnName_fileName key)
  simpa only [hiff] using yields_read?_of_file c scope key d

end Desk
end StepScript
