import StepScript.Proofs.CacheFiles
import StepScript.Proofs.Errand

/-!
Programs that can be trusted with a shared cache. Such a program keeps the tree tidy, takes away no
entry, and leaves alone the temporary files of others; of the tree that it finds before each deed it
takes for granted only that it is tidy and that its own temporary file is as it was left.
-/

set_option autoImplicit false
set_option relaxedAutoImplicit false

namespace StepScript

open FileTree Cache

/-- What a program has in its hands: nothing, the number of a temporary file, or such a file with
its bytes. -/
inductive Hold
  | nothing
  | number (n : Nat)
  | filled (key : String) (n : Nat) (bytes : ByteArray)

namespace Hold

def number? : Hold → Option Nat
  | nothing => none
  | number n => some n
  | filled _ n _ => some n

def Stands (dir : Path) (t : FileTree) : Hold → Prop
  | nothing => True
  | number n => n < t.tokens
  | filled key n bytes => n < t.tokens ∧ t.Has dir (temporaryName key n) bytes

theorem Stands.lt {dir : Path} {t : FileTree} {h : Hold} (hstands : h.Stands dir t) {n : Nat}
    (hn : h.number? = some n) : n < t.tokens := by
  cases h with
  | nothing => cases hn
  | number m =>
    cases hn
    exact hstands
  | filled key m bytes =>
    cases hn
    exact hstands.1

end Hold

/-- What a program may do by one deed, and what it has in its hands before and after. -/
structure Moves (dir : Path) (good : String → ByteArray → Prop) (h : Hold) (t : FileTree)
    (h' : Hold) (t' : FileTree) : Prop where
  tidy : t'.Tidy dir good
  stands : h'.Stands dir t'
  tokens : t.tokens ≤ t'.tokens
  number : ∀ n, h'.number? = some n → h.number? = some n ∨ t.tokens ≤ n
  temporary : ∀ key n bytes, n < t.tokens → h.number? ≠ some n →
    t.Has dir (temporaryName key n) bytes → t'.Has dir (temporaryName key n) bytes
  entry : ∀ key bytes, t.Has dir (fileName key) bytes → ∃ bytes', t'.Has dir (fileName key) bytes'

namespace Moves

variable {dir : Path} {good : String → ByteArray → Prop} {h h' : Hold} {t t' : FileTree}

theorem other_stands {other : Hold} (hmoves : Moves dir good h t h' t')
    (hother : other.Stands dir t) (hapart : ∀ n, other.number? = some n → h.number? ≠ some n) :
    other.Stands dir t' := by
  cases other with
  | nothing => trivial
  | number n => exact Nat.lt_of_lt_of_le hother hmoves.tokens
  | filled key n bytes =>
    obtain ⟨hn, hhas⟩ := hother
    exact ⟨Nat.lt_of_lt_of_le hn hmoves.tokens,
      hmoves.temporary key n bytes hn (hapart n rfl) hhas⟩

private theorem stay (htidy : t.Tidy dir good) (hstands : h'.Stands dir t)
    (hnumber : h'.number? = h.number?) : Moves dir good h t h' t where
  tidy := htidy
  stands := hstands
  tokens := Nat.le_refl _
  number := fun _ hn => .inl (hnumber.symm.trans hn)
  temporary := fun _ _ _ _ _ hhas => hhas
  entry := fun _ bytes hhas => ⟨bytes, hhas⟩

private theorem refl (htidy : t.Tidy dir good) (hstands : h.Stands dir t) :
    Moves dir good h t h t :=
  stay htidy hstands rfl

private theorem of_grows (hgrows : t.Grows t') (htidy : t.Tidy dir good)
    (hstands : h.Stands dir t) :
    Moves dir good h t h t' where
  tidy := htidy.of_grows hgrows
  stands := by
    have htokens := hgrows.tokens
    cases h with
    | nothing => trivial
    | number n =>
      unfold Hold.Stands at hstands ⊢
      omega
    | filled key n bytes =>
      obtain ⟨hn, hhas⟩ := hstands
      exact ⟨by omega, hgrows.has hhas⟩
  tokens := Nat.le_of_eq hgrows.tokens.symm
  number := fun _ hn => .inl hn
  temporary := fun _ _ _ _ _ hhas => hgrows.has hhas
  entry := fun _ bytes hhas => ⟨bytes, hgrows.has hhas⟩

private theorem of_token (htidy : t.Tidy dir good) :
    Moves dir good h t (.number t.tokens) { t with tokens := t.tokens + 1 } where
  tidy := htidy.withTokens _
  stands := Nat.lt_succ_self _
  tokens := Nat.le_succ _
  number := by
    rintro n ⟨⟩
    exact .inr (Nat.le_refl _)
  temporary := fun _ _ _ _ _ hhas => hhas
  entry := fun _ bytes hhas => ⟨bytes, hhas⟩

variable {key : String} {n : Nat} {bytes? : Option ByteArray}

private theorem of_temporary (halters : t.Alters dir (temporaryName key n) bytes? t')
    (htemporary : ∀ key n bytes, good (temporaryName key n) bytes) (htidy : t.Tidy dir good)
    (hn : h.number? = some n) (hn' : h'.number? = some n) (hstands : h'.Stands dir t') :
    Moves dir good h t h' t' where
  tidy := htidy.of_alters halters (fun _ _ _ hgood => hgood) fun bytes _ => htemporary key n bytes
  stands := hstands
  tokens := Nat.le_of_eq halters.tokens.symm
  number := fun m hm => .inl (hn.trans (hn'.symm.trans hm))
  temporary := by
    intro key' m bytes _ hne hhas
    have hname : temporaryName key' m ≠ temporaryName key n := by
      intro hsame
      obtain rfl := temporaryName_inj hsame
      exact hne hn
    exact (halters.has_iff_of_ne hname).2 hhas
  entry := fun key' bytes hhas =>
    ⟨bytes, (halters.has_iff_of_ne (fileName_ne_temporaryName key' key n)).2 hhas⟩

private theorem of_entry {bytes : ByteArray} (halters : t.Alters dir (fileName key) (some bytes) t')
    (hgood : good (fileName key) bytes) (htidy : t.Tidy dir good)
    (hstands : Hold.Stands dir t (.number n)) :
    Moves dir good (.number n) t (.number n) t' where
  tidy := by
    refine htidy.of_alters halters (fun _ _ _ hgood => hgood) ?_
    rintro _ ⟨⟩
    exact hgood
  stands := Nat.lt_of_lt_of_eq hstands halters.tokens.symm
  tokens := Nat.le_of_eq halters.tokens.symm
  number := fun _ hm => .inl hm
  temporary := fun key' m _ _ _ hhas =>
    (halters.has_iff_of_ne (fileName_ne_temporaryName key key' m).symm).2 hhas
  entry := by
    intro key' bytes' hhas
    by_cases hname : fileName key' = fileName key
    · rw [hname]
      exact ⟨bytes, halters.has_same⟩
    · exact ⟨bytes', (halters.has_iff_of_ne hname).2 hhas⟩

private theorem trans {h'' : Hold} {t'' : FileTree} (hmoves : Moves dir good h t h' t')
    (hmoves' : Moves dir good h' t' h'' t'') : Moves dir good h t h'' t'' where
  tidy := hmoves'.tidy
  stands := hmoves'.stands
  tokens := Nat.le_trans hmoves.tokens hmoves'.tokens
  number := by
    intro m hm
    rcases hmoves'.number m hm with hm' | hfresh
    · exact hmoves.number m hm'
    · exact .inr (Nat.le_trans hmoves.tokens hfresh)
  temporary := by
    intro key m bytes hm hne hhas
    have hne' : h'.number? ≠ some m := by
      intro hm'
      rcases hmoves.number m hm' with hsame | hfresh
      · exact hne hsame
      · omega
    exact hmoves'.temporary key m bytes (Nat.lt_of_lt_of_le hm hmoves.tokens) hne'
      (hmoves.temporary key m bytes hm hne hhas)
  entry := by
    intro key bytes hhas
    obtain ⟨bytes', hhas'⟩ := hmoves.entry key bytes hhas
    exact hmoves'.entry key bytes' hhas'

end Moves

/-- A program that can be trusted, from what it has in its hands to what it comes to. -/
def Errand.Safe {α : Type} (find : Finder) (dir : Path) (good : String → ByteArray → Prop) :
    Errand α → Hold → (α → Hold → Prop) → Prop
  | .done a, h, q => q a h
  | .act d next, h, q => ∀ t answer t', t.Tidy dir good → h.Stands dir t →
      d.Goes find t answer t' → ∃ h', Moves dir good h t h' t' ∧ (next answer).Safe find dir good h' q

namespace Errand

variable {α β : Type} {find : Finder} {dir : Path} {good : String → ByteArray → Prop} {h : Hold}

private theorem safe_pure {a : α} {q : α → Hold → Prop} (ha : q a h) :
    Safe find dir good (pure a) h q := ha

theorem safe_done_iff {a : α} {q : α → Hold → Prop} :
    Safe find dir good (.done a) h q ↔ q a h := Iff.rfl

theorem safe_act_iff {d : Deed} {next : d.Answer → Errand α} {q : α → Hold → Prop} :
    Safe find dir good (.act d next) h q ↔ ∀ t answer t', t.Tidy dir good → h.Stands dir t →
      d.Goes find t answer t' →
      ∃ h', Moves dir good h t h' t' ∧ (next answer).Safe find dir good h' q := Iff.rfl

private theorem Safe.bind {x : Errand α} {f : α → Errand β} {q : α → Hold → Prop}
    {r : β → Hold → Prop} (hx : x.Safe find dir good h q)
    (hf : ∀ a h', q a h' → (f a).Safe find dir good h' r) : (x >>= f).Safe find dir good h r := by
  induction x generalizing h with
  | done a => exact hf a h hx
  | act d next ih =>
    intro t answer t' htidy hstands hgoes
    obtain ⟨h', hmoves, hnext⟩ := hx t answer t' htidy hstands hgoes
    exact ⟨h', hmoves, ih answer hnext⟩

private theorem Safe.mono {x : Errand α} {q r : α → Hold → Prop} (hx : x.Safe find dir good h q)
    (hqr : ∀ a h', q a h' → r a h') : x.Safe find dir good h r := by
  induction x generalizing h with
  | done a => exact hqr a h hx
  | act d next ih =>
    intro t answer t' htidy hstands hgoes
    obtain ⟨h', hmoves, hnext⟩ := hx t answer t' htidy hstands hgoes
    exact ⟨h', hmoves, ih answer hnext⟩

/-! ## Single deeds -/

private theorem safe_read {name : String} (hname : IsOwnName name)
    {q : Except FileError ByteArray → Hold → Prop} (herror : ∀ e, q (.error e) h)
    (hok : ∀ bytes, good name bytes → q (.ok bytes) h) :
    Safe find dir good (files.read (dir.entry name)) h q := by
  intro t answer t' htidy hstands hgoes
  obtain ⟨rfl, rfl⟩ := hgoes.read
  refine ⟨h, .refl htidy hstands, ?_⟩
  change q (t'.read (dir.entry name)) h
  cases hread : t'.read (dir.entry name) with
  | error e => exact herror e
  | ok bytes => exact hok bytes (htidy.good_of_has hname ((htidy.read_iff hname).1 hread))

private theorem safe_isDirectory {path : Path} {q : Bool → Hold → Prop} (hq : ∀ b, q b h) :
    Safe find dir good (files.isDirectory path) h q := by
  rintro t _ _ htidy hstands ⟨⟩
  exact ⟨h, .refl htidy hstands, hq _⟩

private theorem safe_matcher {patterns : List String} {text : String}
    {q : Except Failure (Option Match) → Hold → Prop} (hq : q (find patterns text) h) :
    Safe find dir good (matcher.find patterns text) h q := by
  rintro t _ _ htidy hstands ⟨⟩
  exact ⟨h, .refl htidy hstands, hq⟩

private theorem safe_freshToken {q : String → Hold → Prop} (hq : ∀ n, q (tokenText n) (.number n)) :
    Safe find dir good files.freshToken h q := by
  rintro t _ _ htidy - ⟨⟩
  exact ⟨.number t.tokens, .of_token htidy, hq t.tokens⟩

end Errand

/-! ## Changes -/

/-- What a program has in its hands after a change that succeeds, and after one that fails. -/
private def Edit.Turns (e : Edit) (dir : Path) (good : String → ByteArray → Prop)
    (h done failed : Hold) : Prop :=
  ∀ t, t.Tidy dir good → h.Stands dir t → Moves dir good h t failed t ∧
    ((∃ reason, e.perform.run t = (.error reason, t)) ∨
      ∃ t', e.perform.run t = (.ok (), t') ∧ Moves dir good h t done t' ∧
        Moves dir good h t failed t')

private theorem Errand.safe_edit {find : Finder} {dir : Path} {good : String → ByteArray → Prop}
    {e : Edit} {h done failed : Hold} (hturns : e.Turns dir good h done failed)
    (hmidway : ∀ path bytes part, e = .write path bytes →
      ∃ h', (Edit.write path part).Turns dir good h h' failed) :
    Safe find dir good (.act (.edit e) .done) h fun r h' =>
      (∃ reason, r = .error reason) ∧ h' = failed ∨ r = .ok () ∧ h' = done := by
  intro t answer t' htidy hstands hgoes
  obtain ⟨hsame, hperform⟩ := hturns t htidy hstands
  cases hgoes with
  | performed =>
    change ∃ h', Moves dir good h t h' (e.perform.run t).2 ∧
      ((∃ reason, (e.perform.run t).1 = .error reason) ∧ h' = failed ∨
        (e.perform.run t).1 = .ok () ∧ h' = done)
    rcases hperform with ⟨reason, hrun⟩ | ⟨t₁, hrun, hdone, -⟩
    · rw [hrun]
      exact ⟨failed, hsame, .inl ⟨⟨reason, rfl⟩, rfl⟩⟩
    · rw [hrun]
      exact ⟨done, hdone, .inr ⟨rfl, rfl⟩⟩
  | failed reason hfails =>
    refine ⟨failed, ?_, .inl ⟨⟨reason, rfl⟩, rfl⟩⟩
    have hperformed {e : Edit} {h' : Hold} (hturns : e.Turns dir good h h' failed) :
        Moves dir good h t failed (e.perform.run t).2 := by
      obtain ⟨hsame, ⟨reason, hrun⟩ | ⟨t₁, hrun, -, hdone⟩⟩ := hturns t htidy hstands
      · rw [hrun]
        exact hsame
      · rw [hrun]
        exact hdone
    cases hfails with
    | before => exact hsame
    | after => exact hperformed hturns
    | midway path bytes part =>
      obtain ⟨h', hpart⟩ := hmidway path bytes part rfl
      exact hperformed hpart

-- From here on programs are taken apart by the lemmas above, and never run.
attribute [irreducible] Errand.Safe

namespace Edit

variable {dir : Path} {good : String → ByteArray → Prop} {h : Hold}

private theorem turns_makeDirectory (path : Path) : (makeDirectory path).Turns dir good h h h := by
  intro t htidy hstands
  refine ⟨.refl htidy hstands, ?_⟩
  rw [run_makeDirectory]
  have hgrows := grows_makeDirectory t path
  have hcases : (∃ reason, t.makeDirectory path = (.error reason, t)) ∨
      ∃ t', t.makeDirectory path = (.ok (), t') := by
    unfold FileTree.makeDirectory
    split <;> simp
  rcases hcases with hfail | ⟨t', hrun⟩
  · exact .inl hfail
  · rw [hrun] at hgrows
    have hmoves := Moves.of_grows hgrows htidy hstands
    exact .inr ⟨t', hrun, hmoves, hmoves⟩

variable {key : String} {n : Nat}

private theorem turns_sync (path : Path) (bytes : ByteArray) :
    (sync path).Turns dir good (.filled key n bytes) (.filled key n bytes) (.number n) := by
  intro t htidy hstands
  have hdropped : Moves dir good (.filled key n bytes) t (.number n) t :=
    .stay htidy hstands.1 rfl
  exact ⟨hdropped, .inr ⟨t, rfl, .refl htidy hstands, hdropped⟩⟩

private theorem turns_temporary {e : Edit} {done : Hold} (key : String)
    (bytes? : Option ByteArray)
    (htemporary : ∀ key n bytes, good (temporaryName key n) bytes)
    (hperform : ∀ t : FileTree, t.LinkFree dir (temporaryName key n) →
      (∃ reason, e.perform.run t = (.error reason, t)) ∨
        ∃ t', e.perform.run t = (.ok (), t') ∧ t.Alters dir (temporaryName key n) bytes? t')
    (hnumber : done.number? = some n)
    (hdone : ∀ t t' : FileTree, n < t'.tokens → t.Alters dir (temporaryName key n) bytes? t' →
      done.Stands dir t') :
    e.Turns dir good (.number n) done (.number n) := by
  intro t htidy hstands
  refine ⟨.refl htidy hstands, ?_⟩
  rcases hperform t (htidy.linkFree (isOwnName_temporaryName key n)) with
    hfail | ⟨t', hrun, halters⟩
  · exact .inl hfail
  · have hn : n < t'.tokens := Nat.lt_of_lt_of_eq hstands halters.tokens.symm
    exact .inr ⟨t', hrun,
      .of_temporary halters htemporary htidy rfl hnumber (hdone t t' hn halters),
      .of_temporary halters htemporary htidy rfl rfl hn⟩

variable (htemporary : ∀ key n bytes, good (temporaryName key n) bytes)

include htemporary

private theorem turns_create :
    (create (dir.entry (temporaryName key n))).Turns dir good (.number n) (.number n)
      (.number n) := by
  refine turns_temporary key (some ByteArray.empty) htemporary (fun t hfree => ?_) rfl fun _ _ hn _ => hn
  rw [run_create]
  exact create_entry (isOwnName_temporaryName key n).isFileName hfree

private theorem turns_write (bytes : ByteArray) :
    (write (dir.entry (temporaryName key n)) bytes).Turns dir good (.number n)
      (.filled key n bytes) (.number n) := by
  refine turns_temporary key (some bytes) htemporary (fun t hfree => ?_) rfl fun _ _ hn halters =>
    ⟨hn, halters.has_same⟩
  rw [run_write]
  exact write_entry (isOwnName_temporaryName key n).isFileName hfree bytes

private theorem turns_remove :
    (remove (dir.entry (temporaryName key n))).Turns dir good (.number n) (.number n)
      (.number n) := by
  refine turns_temporary key none htemporary (fun t hfree => ?_) rfl fun _ _ hn _ => hn
  rw [run_remove]
  exact remove_entry (isOwnName_temporaryName key n).isFileName hfree

private theorem turns_rename {bytes : ByteArray} (hgood : good (fileName key) bytes) :
    (rename (dir.entry (temporaryName key n)) (dir.entry (fileName key))).Turns dir good
      (.filled key n bytes) (.number n) (.number n) := by
  intro t htidy hstands
  obtain ⟨hn, hhas⟩ := hstands
  have howned := isOwnName_temporaryName key n
  have hentry := isOwnName_fileName key
  have hne := fileName_ne_temporaryName key key n
  refine ⟨.stay htidy hn rfl, ?_⟩
  rw [run_rename]
  rcases rename_entry howned.isFileName (htidy.linkFree howned) hentry.isFileName
    (htidy.linkFree hentry) hne with hfail | ⟨found, between, t', hrun, hfound, htake, hput⟩
  · exact .inl hfail
  · obtain rfl := hfound.unique hhas
    have hn' : n < between.tokens := Nat.lt_of_lt_of_eq hn htake.tokens.symm
    have htaken : Moves dir good (.filled key n found) t (.number n) between :=
      .of_temporary htake htemporary htidy rfl rfl hn'
    have hmoves := htaken.trans (.of_entry hput hgood htaken.tidy hn')
    exact .inr ⟨t', hrun, hmoves, hmoves⟩

end Edit

/-! ## What a cache does -/

namespace Errand

variable {find : Finder} {dir : Path} {good : String → ByteArray → Prop} {h : Hold}

private theorem safe_ifDirectory (path : Path) (e : FileError) :
    Safe find dir good (do return if ← files.isDirectory path then .ok () else .error e :
      Errand (Except FileError Unit)) h fun _ h' => h' = h := by
  have hlook : Safe find dir good (files.isDirectory path) h fun _ h' => h' = h :=
    safe_isDirectory fun _ => rfl
  refine hlook.bind ?_
  rintro _ h' rfl
  exact safe_pure rfl

private theorem safe_makeDirectory (path : Path) :
    Safe find dir good (files.makeDirectory path) h fun _ h' => h' = h := by
  refine (safe_edit (Edit.turns_makeDirectory path) nofun).mono ?_
  rintro _ _ (⟨-, hsame⟩ | ⟨-, hsame⟩) <;> exact hsame

private theorem safe_makeDirectoriesFrom (depth : Nat) (path : Path) :
    Safe find dir good (files.makeDirectoriesFrom depth path) h fun _ h' => h' = h := by
  induction depth generalizing path with
  | zero => exact safe_pure rfl
  | succ depth ih =>
    unfold FileAccess.makeDirectoriesFrom
    by_cases hempty : (path.text == "") = true
    · rw [if_pos hempty]
      exact safe_pure rfl
    rw [if_neg hempty]
    refine (safe_makeDirectory path).bind ?_
    rintro made h' rfl
    cases made with
    | ok _ => exact safe_pure rfl
    | error e =>
      cases e with
      | notFound =>
        simp only
        cases path.parent with
        | none => exact safe_pure rfl
        | some parent =>
          refine (ih parent).bind ?_
          rintro above h'' rfl
          cases above with
          | error e => exact safe_pure rfl
          | ok _ =>
            refine (safe_makeDirectory path).bind ?_
            rintro last h₃ rfl
            cases last with
            | ok _ => exact safe_pure rfl
            | error e => exact safe_ifDirectory path e
      | _ => exact safe_ifDirectory path _

private theorem safe_makeParent (path : Path) :
    Safe find dir good (Cache.makeParent files path) h fun _ h' => h' = h := by
  unfold Cache.makeParent
  cases path.parent with
  | none => exact safe_pure rfl
  | some parent => exact safe_makeDirectoriesFrom _ parent

section Replacing

variable {key : String} {bytes : ByteArray}
  (htemporary : ∀ key n bytes, good (temporaryName key n) bytes)
  (hgood : good (fileName key) bytes)

include htemporary hgood

private theorem safe_writeAndRename (n : Nat) :
    Safe find dir good (Cache.writeAndRename files (dir.entry (temporaryName key n))
      (dir.entry (fileName key)) bytes) (.number n) fun _ h' => h' = .number n := by
  unfold Cache.writeAndRename
  refine (safe_edit (Edit.turns_create htemporary) nofun).bind ?_
  intro _ _ hpost
  rcases hpost with ⟨⟨e, rfl⟩, rfl⟩ | ⟨rfl, rfl⟩
  · exact safe_pure rfl
  have hmidway : ∀ path written part, Edit.write (dir.entry (temporaryName key n)) bytes =
      .write path written → ∃ h', (Edit.write path part).Turns dir good (.number n) h' (.number n) := by
    intro path written part hsame
    rw [← (Edit.write.inj hsame).1]
    exact ⟨_, Edit.turns_write htemporary part⟩
  refine (safe_edit (Edit.turns_write htemporary bytes) hmidway).bind ?_
  intro _ _ hpost
  rcases hpost with ⟨⟨e, rfl⟩, rfl⟩ | ⟨rfl, rfl⟩
  · exact safe_pure rfl
  refine (safe_edit (Edit.turns_sync _ bytes) nofun).bind ?_
  intro _ _ hpost
  rcases hpost with ⟨⟨e, rfl⟩, rfl⟩ | ⟨rfl, rfl⟩
  · exact safe_pure rfl
  refine (safe_edit (Edit.turns_rename htemporary hgood) nofun).mono ?_
  rintro _ _ (⟨-, hsame⟩ | ⟨-, hsame⟩) <;> exact hsame

private theorem safe_replaceFile {c : Cache} {scope : String} (hdir : c.directory scope = dir) :
    Safe find dir good (Cache.replaceFile files (c.pathOf scope key) bytes) h fun _ _ => True := by
  unfold Cache.replaceFile
  have htoken : Safe find dir good files.freshToken h fun token h' =>
      ∃ n, token = tokenText n ∧ h' = .number n := safe_freshToken fun n => ⟨n, rfl, rfl⟩
  refine htoken.bind ?_
  intro _ _ hpost
  obtain ⟨n, rfl, rfl⟩ := hpost
  rw [Cache.temporaryPath_pathOf, Cache.pathOf, hdir]
  refine (safe_writeAndRename htemporary hgood n).bind ?_
  rintro r _ rfl
  cases r with
  | ok _ => exact safe_pure trivial
  | error e =>
    exact (safe_edit (Edit.turns_remove htemporary) nofun).bind fun _ _ _ => safe_pure trivial

end Replacing

private theorem safe_write {c : Cache} {scope key : String} (hdir : c.directory scope = dir)
    (htemporary : ∀ key n bytes, good (temporaryName key n) bytes) (found : Match)
    (hgood : good (fileName key) (Json.Codec.encode found).indented.toUTF8) :
    Safe find dir good (c.write files scope key found) h fun _ _ => True := by
  unfold Cache.write
  have hparent : Safe find dir good (Cache.makeParent files (c.pathOf scope key)) h
      fun _ h' => h' = h := safe_makeParent (c.pathOf scope key)
  refine Safe.bind hparent ?_
  rintro r _ rfl
  cases r with
  | error e => exact safe_pure trivial
  | ok _ => exact safe_replaceFile htemporary hgood hdir

private theorem safe_remember {c : Cache} {scope key : String} (hdir : c.directory scope = dir)
    (htemporary : ∀ key n bytes, good (temporaryName key n) bytes)
    {answer : Except Failure (Option Match)}
    (hgood : ∀ found, answer = .ok (some found) →
      good (fileName key) (Json.Codec.encode found).indented.toUTF8) :
    Safe find dir good (Matcher.remember c files scope key answer) h fun _ _ => True := by
  cases answer with
  | error f => exact safe_pure trivial
  | ok found? =>
    cases found? with
    | none => exact safe_pure trivial
    | some found =>
      exact (safe_write hdir htemporary found (hgood found rfl)).bind fun _ _ _ =>
        safe_pure trivial

private theorem safe_remembered {c : Cache} {scope key : String} (hdir : c.directory scope = dir)
    {p : Match → Prop} (hgood : ∀ bytes found, good (fileName key) bytes →
      Json.decodeBytes? bytes = some found → p found) :
    Safe find dir good (Matcher.remembered c files scope key) h fun found? h' =>
      h' = h ∧ ∀ found, found? = some found → p found := by
  have hread : Safe find dir good (files.read (dir.entry (fileName key))) h fun r h' =>
      h' = h ∧ ∀ bytes, r = .ok bytes → good (fileName key) bytes := by
    refine safe_read (isOwnName_fileName key) (fun e => ⟨rfl, nofun⟩) fun bytes hbytes => ⟨rfl, ?_⟩
    rintro _ ⟨⟩
    exact hbytes
  have hread? : Safe find dir good (c.read? files scope key) h fun r h' =>
      h' = h ∧ ∀ found, r = .ok (some found) → p found := by
    unfold Cache.read?
    rw [Cache.pathOf, hdir]
    refine hread.bind ?_
    intro r _ hpost
    obtain ⟨rfl, hr⟩ := hpost
    cases r with
    | error e => cases e <;> exact safe_pure ⟨rfl, nofun⟩
    | ok bytes =>
      simp only
      cases hdecode : (Json.decodeBytes? bytes : Option Match) with
      | none => exact safe_pure ⟨rfl, nofun⟩
      | some found =>
        refine safe_pure ⟨rfl, ?_⟩
        rintro _ ⟨⟩
        exact hgood bytes found (hr bytes rfl) hdecode
  unfold Matcher.remembered
  refine hread?.bind ?_
  intro r _ hpost
  obtain ⟨rfl, hr⟩ := hpost
  cases r with
  | error e => exact safe_pure ⟨rfl, nofun⟩
  | ok found? =>
    refine safe_pure ⟨rfl, ?_⟩
    rintro found rfl
    exact hr found rfl

/-- A lookup comes to what the matcher answers, if only answers of the matcher are good. -/
theorem safe_find {c : Cache} {scope : String} {patterns : List String} {text : String}
    (hdir : c.directory scope = dir)
    (htemporary : ∀ key n bytes, good (temporaryName key n) bytes)
    (hwritten : ∀ found, find patterns text = .ok (some found) →
      good (fileName (Matcher.key patterns text)) (Json.Codec.encode found).indented.toUTF8)
    (hread : ∀ bytes found, good (fileName (Matcher.key patterns text)) bytes →
      Json.decodeBytes? bytes = some found → find patterns text = .ok (some found)) :
    Safe find dir good ((matcher.cached c files scope).find patterns text) h
      fun answer _ => answer = find patterns text := by
  unfold Matcher.cached
  refine (safe_remembered hdir hread).bind ?_
  intro found? h' hpost
  obtain ⟨rfl, hfound⟩ := hpost
  cases found? with
  | some found => exact safe_pure (hfound found rfl).symm
  | none =>
    have hask : Safe find dir good (matcher.find patterns text) h' fun answer _ =>
        answer = find patterns text := safe_matcher rfl
    refine hask.bind ?_
    rintro _ h'' rfl
    exact (safe_remember hdir htemporary hwritten).bind fun _ _ _ => safe_pure rfl

end Errand
end StepScript
