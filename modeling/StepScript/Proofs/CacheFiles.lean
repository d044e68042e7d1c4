import StepScript.Cache
import StepScript.Proofs.EntryChange

/-!
The files of a cache. An entry's file and the temporary files beside it have names that no two of
them share, and all of them are entries of the namespace's directory. A tree is tidy when no link
stands under such a name and each file there is good, whatever directories are still to be made;
all that a cache does to a tree keeps it tidy.
-/

set_option autoImplicit false
set_option relaxedAutoImplicit false

namespace StepScript

open FileTree Digest Digest.Blake3

/-! ## Names -/

private def hexDigits : List Char := "0123456789abcdef".toList

private theorem digitChar_mem : ∀ n < 16, Nat.digitChar n ∈ hexDigits := by decide

private theorem hexByte_mem (b : UInt8) : ∀ c ∈ hexByte b, c ∈ hexDigits := by
  intro c hc
  have hb : b.toNat < 256 := b.toNat_lt
  have hhigh : b.toNat / 16 < 16 := by omega
  have hlow : b.toNat % 16 < 16 := by omega
  simp only [hexByte, List.mem_cons, List.not_mem_nil, or_false] at hc
  rcases hc with rfl | rfl
  · exact digitChar_mem _ hhigh
  · exact digitChar_mem _ hlow

private theorem hexHash_mem (s : String) : ∀ c ∈ (hexHash s).toList, c ∈ hexDigits := by
  intro c hc
  rw [hexHash, String.toList_ofList] at hc
  obtain ⟨b, -, hb⟩ := List.mem_flatMap.1 hc
  exact hexByte_mem b c hb

private theorem length_hexHash (s : String) : (hexHash s).toList.length = 64 := by
  have hhash (bytes : List UInt8) : (Blake3.hash bytes).length = 32 := by
    simp [Blake3.hash, Block.compress, bytesOf]
  have hbytes (bytes : List UInt8) : (bytes.flatMap hexByte).length = 2 * bytes.length := by
    induction bytes with
    | nil => rfl
    | cons b bytes ih =>
      rw [List.flatMap_cons, List.length_append, ih, List.length_cons]
      have hbyte : (hexByte b).length = 2 := rfl
      omega
  rw [hexHash, String.toList_ofList, hbytes, hhash]

private theorem toDigits_mem (n : Nat) : ∀ c ∈ Nat.toDigits 16 n, c ∈ hexDigits := by
  induction n using Nat.strongRecOn with
  | ind n ih =>
    intro c hc
    rw [Nat.toDigits_eq_if (by omega)] at hc
    split at hc
    · next hn =>
      rw [List.mem_singleton.1 hc]
      exact digitChar_mem n hn
    · next hn =>
      rcases List.mem_append.1 hc with hrest | hlast
      · exact ih (n / 16) (by omega) c hrest
      · rw [List.mem_singleton.1 hlast]
        exact digitChar_mem _ (Nat.mod_lt n (by omega))

def FileTree.tokenText (n : Nat) : String :=
  String.ofList (List.replicate (tokenLength - (Nat.toDigits 16 n).length) '0' ++ Nat.toDigits 16 n)

private theorem tokenText_mem (n : Nat) : ∀ c ∈ (tokenText n).toList, c ∈ hexDigits := by
  intro c hc
  rw [tokenText, String.toList_ofList] at hc
  rcases List.mem_append.1 hc with hzero | hdigit
  · rw [(List.mem_replicate.1 hzero).2]
    decide
  · exact toDigits_mem n c hdigit

private def digitsNumber (cs : List Char) : Nat :=
  cs.foldl (fun n c => 16 * n + hexDigits.idxOf c) 0

private theorem idxOf_digitChar : ∀ n < 16, hexDigits.idxOf (Nat.digitChar n) = n := by decide

private theorem digitsNumber_toDigits (n : Nat) : digitsNumber (Nat.toDigits 16 n) = n := by
  induction n using Nat.strongRecOn with
  | ind n ih =>
    rw [Nat.toDigits_eq_if (by omega)]
    split
    · next hn => simpa [digitsNumber] using idxOf_digitChar n hn
    · next hn =>
      have hlast := idxOf_digitChar (n % 16) (Nat.mod_lt n (by omega))
      have hrest := ih (n / 16) (by omega)
      unfold digitsNumber at hrest ⊢
      rw [List.foldl_append, hrest, List.foldl_cons, List.foldl_nil, hlast]
      omega

private theorem digitsNumber_replicate (k : Nat) (cs : List Char) :
    digitsNumber (List.replicate k '0' ++ cs) = digitsNumber cs := by
  induction k with
  | zero => rfl
  | succ k ih =>
    rw [List.replicate_succ, List.cons_append]
    exact ih

private theorem tokenText_injective {m n : Nat} (h : tokenText m = tokenText n) : m = n := by
  have hnumber := congrArg (fun s => digitsNumber s.toList) h
  simpa only [tokenText, String.toList_ofList, digitsNumber_replicate, digitsNumber_toDigits]
    using hnumber

private theorem isFileName_of_chars {name : String} (hlength : 3 ≤ name.toList.length)
    (hchars : ∀ c ∈ name.toList, c ≠ '/' ∧ c ≠ Char.ofNat 0) : IsFileName name where
  ne_here := by
    rintro rfl
    simp at hlength
  ne_up := by
    rintro rfl
    simp at hlength
  ne_empty := by
    rintro rfl
    simp at hlength
  noSlash := fun h => (hchars _ h).1 rfl
  noNul := fun h => (hchars _ h).2 rfl

private theorem ne_of_mem_hexDigits {c : Char} (h : c ∈ hexDigits) :
    c ≠ '.' ∧ c ≠ '/' ∧ c ≠ Char.ofNat 0 := by
  have hnone : '.' ∉ hexDigits ∧ '/' ∉ hexDigits ∧ Char.ofNat 0 ∉ hexDigits := by decide
  refine ⟨?_, ?_, ?_⟩ <;> rintro rfl
  · exact hnone.1 h
  · exact hnone.2.1 h
  · exact hnone.2.2 h

private theorem ne_of_mem_endings {c : Char} (h : c ∈ ".json".toList ++ ".tmp".toList) :
    c ≠ '/' ∧ c ≠ Char.ofNat 0 := by
  have hnone : '/' ∉ ".json".toList ++ ".tmp".toList ∧
      Char.ofNat 0 ∉ ".json".toList ++ ".tmp".toList := by decide
  refine ⟨?_, ?_⟩ <;> rintro rfl
  · exact hnone.1 h
  · exact hnone.2 h

namespace Cache

def temporaryName (key : String) (n : Nat) : String :=
  hexHash key ++ "." ++ (tokenText n ++ ".tmp")

theorem isFileName_fileName (key : String) : IsFileName (fileName key) := by
  have hlength := length_hexHash key
  refine isFileName_of_chars ?_ ?_
  · simp only [fileName, String.toList_append, List.length_append]
    omega
  · intro c hc
    rw [fileName, String.toList_append] at hc
    rcases List.mem_append.1 hc with hdigit | hrest
    · exact (ne_of_mem_hexDigits (hexHash_mem key c hdigit)).2
    · exact ne_of_mem_endings (List.mem_append_left _ hrest)

theorem isFileName_temporaryName (key : String) (n : Nat) :
    IsFileName (temporaryName key n) := by
  have hlength := length_hexHash key
  refine isFileName_of_chars ?_ ?_
  · simp only [temporaryName, String.toList_append, List.length_append]
    omega
  · intro c hc
    simp only [temporaryName, String.toList_append, List.mem_append] at hc
    rcases hc with (hdigit | hpoint) | htoken | hrest
    · exact (ne_of_mem_hexDigits (hexHash_mem key c hdigit)).2
    · have hc : c = '.' := List.mem_singleton.1 hpoint
      exact ne_of_mem_endings (hc ▸ by decide)
    · exact (ne_of_mem_hexDigits (tokenText_mem n c htoken)).2
    · exact ne_of_mem_endings (List.mem_append_right _ hrest)

private theorem not_mem_hexHash (key : String) : '.' ∉ (hexHash key).toList :=
  fun h => (ne_of_mem_hexDigits (hexHash_mem key _ h)).1 rfl

private theorem not_mem_tokenText (n : Nat) : '.' ∉ (tokenText n).toList :=
  fun h => (ne_of_mem_hexDigits (tokenText_mem n _ h)).1 rfl

private theorem splitOn_fileName (key : String) :
    (fileName key).toList.splitOn '.' = [(hexHash key).toList, "json".toList] := by
  have hlist : (fileName key).toList = (hexHash key).toList ++ '.' :: "json".toList := by
    simp [fileName, String.toList_append]
  rw [hlist, List.splitOn_append_cons_self_of_not_mem (not_mem_hexHash key)]
  rfl

private theorem splitOn_temporaryName (key : String) (n : Nat) :
    (temporaryName key n).toList.splitOn '.' =
      [(hexHash key).toList, (tokenText n).toList, "tmp".toList] := by
  have hlist : (temporaryName key n).toList =
      (hexHash key).toList ++ '.' :: ((tokenText n).toList ++ '.' :: "tmp".toList) := by
    simp [temporaryName, String.toList_append]
  rw [hlist, List.splitOn_append_cons_self_of_not_mem (not_mem_hexHash key),
    List.splitOn_append_cons_self_of_not_mem (not_mem_tokenText n)]
  rfl

private theorem utf8ByteSize_of_hexDigits {s : String} (h : ∀ c ∈ s.toList, c ∈ hexDigits) :
    s.utf8ByteSize = s.toList.length := by
  have hall : hexDigits.all (fun c => c.utf8Size == 1) = true := by decide
  have hone (c : Char) (hc : c ∈ hexDigits) : c.utf8Size = 1 :=
    beq_iff_eq.1 (List.all_eq_true.1 hall c hc)
  have hlist (cs : List Char) (hcs : ∀ c ∈ cs, c ∈ hexDigits) :
      (String.ofList cs).utf8ByteSize = cs.length := by
    induction cs with
    | nil => rfl
    | cons c cs ih =>
      have hrest := ih fun c hc => hcs c (List.mem_cons_of_mem _ hc)
      have hc := hone c (hcs c List.mem_cons_self)
      rw [String.ofList_cons, String.utf8ByteSize_append, String.utf8ByteSize_singleton, hc, hrest,
        List.length_cons, Nat.add_comm]
  have hsize := hlist s.toList h
  rwa [String.ofList_toList] at hsize

theorem utf8ByteSize_fileName (key : String) : (fileName key).utf8ByteSize = 69 := by
  rw [fileName, String.utf8ByteSize_append, utf8ByteSize_of_hexDigits (hexHash_mem key),
    length_hexHash]
  rfl

theorem utf8ByteSize_temporaryName (key : String) {n : Nat}
    (hn : (Nat.toDigits 16 n).length ≤ tokenLength) :
    (temporaryName key n).utf8ByteSize = 101 := by
  have htoken : (tokenText n).toList.length = tokenLength := by
    rw [tokenText, String.toList_ofList, List.length_append, List.length_replicate]
    omega
  rw [temporaryName, String.utf8ByteSize_append, String.utf8ByteSize_append,
    String.utf8ByteSize_append, utf8ByteSize_of_hexDigits (hexHash_mem key),
    utf8ByteSize_of_hexDigits (tokenText_mem n), length_hexHash, htoken]
  rfl

theorem hexHash_of_fileName {key key' : String} (h : fileName key = fileName key') :
    hexHash key = hexHash key' := by
  have hlist := congrArg String.toList h
  simp only [fileName, String.toList_append] at hlist
  exact String.toList_inj.1 (List.append_cancel_right hlist)

theorem fileName_ne_temporaryName (key other : String) (n : Nat) :
    fileName key ≠ temporaryName other n := by
  intro h
  have hpieces := congrArg (fun name => (name.toList.splitOn '.').length) h
  simp only [splitOn_fileName, splitOn_temporaryName, List.length_cons, List.length_nil] at hpieces
  omega

theorem temporaryName_inj {key other : String} {m n : Nat}
    (h : temporaryName key m = temporaryName other n) : m = n := by
  have hpieces := congrArg (fun name => name.toList.splitOn '.') h
  simp only [splitOn_temporaryName, List.cons.injEq, String.toList_inj] at hpieces
  exact tokenText_injective hpieces.2.1

theorem cutExtension_fileName (key : String) :
    Path.cutExtension (fileName key) = (hexHash key, some "json") := by
  have hne : hexHash key ≠ "" := by
    intro h
    have hlength := length_hexHash key
    rw [h] at hlength
    cases hlength
  have hname : fileName key = hexHash key ++ "." ++ "json" := by
    rw [String.append_assoc]
    rfl
  rw [hname]
  exact Path.cutExtension_append hne (by decide)

theorem temporaryPath_pathOf (c : Cache) (scope key : String) (n : Nat) :
    temporaryPath (c.pathOf scope key) (tokenText n) =
      (c.directory scope).entry (temporaryName key n) := by
  have hname := isFileName_temporaryName key n
  have hcut := cutExtension_fileName key
  have hnew : IsFileName ((Path.cutExtension (fileName key)).1 ++ "." ++ (tokenText n ++ ".tmp")) := by
    rw [hcut]
    exact hname
  have hpath := Path.withExtension_entry (c.directory scope) (isFileName_fileName key) hnew
  rw [hcut] at hpath
  exact hpath

def IsOwnName (name : String) : Prop :=
  (∃ key, name = fileName key) ∨ ∃ key n, name = temporaryName key n

theorem isOwnName_fileName (key : String) : IsOwnName (fileName key) := .inl ⟨key, rfl⟩

theorem isOwnName_temporaryName (key : String) (n : Nat) : IsOwnName (temporaryName key n) :=
  .inr ⟨key, n, rfl⟩

theorem IsOwnName.isFileName {name : String} (h : IsOwnName name) : IsFileName name := by
  rcases h with ⟨key, rfl⟩ | ⟨key, n, rfl⟩
  · exact isFileName_fileName key
  · exact isFileName_temporaryName key n

end Cache

/-! ## Tidy trees -/

namespace FileTree

open Cache

def Sightly (good : String → ByteArray → Prop) (name : String) : Option Sight → Prop
  | some (.link _) => False
  | some (.file bytes) => good name bytes
  | some .directory | none => True

/-- Whatever directories are made, no link stands in a directory under a name of the cache's own,
and each file there is good. -/
def Tidy (t : FileTree) (dir : Path) (good : String → ByteArray → Prop) : Prop :=
  ∀ s, t.scene.Grows s → ∀ directory, s.Opens t.working dir directory →
    ∀ name, IsOwnName name → Sightly good name (s (directory ++ [name]))

variable {t t' : FileTree} {dir : Path} {name : String} {good good' : String → ByteArray → Prop}

theorem Has.unique {bytes bytes' : ByteArray} (h : t.Has dir name bytes)
    (h' : t.Has dir name bytes') : bytes = bytes' := by
  obtain ⟨-, directory, hopens, hseen⟩ := h
  obtain ⟨-, directory', hopens', hseen'⟩ := h'
  obtain rfl := hopens.unique hopens'
  rw [hseen] at hseen'
  cases hseen'
  rfl

private theorem Sightly.mono {seen : Option Sight} (h : Sightly good name seen)
    (hgood : ∀ bytes, good name bytes → good' name bytes) : Sightly good' name seen := by
  cases seen with
  | none => trivial
  | some sight =>
    cases sight with
    | link target => exact h
    | file bytes => exact hgood bytes h
    | directory => trivial

namespace Tidy

theorem linkFree (h : t.Tidy dir good) (hname : IsOwnName name) : t.LinkFree dir name := by
  intro directory hopens target hseen
  have hsightly := h t.scene (.refl _) directory hopens name hname
  rw [hseen] at hsightly
  exact hsightly

theorem good_of_has {bytes : ByteArray} (h : t.Tidy dir good) (hname : IsOwnName name)
    (hhas : t.Has dir name bytes) : good name bytes := by
  obtain ⟨-, directory, hopens, hseen⟩ := hhas
  have hsightly := h t.scene (.refl _) directory hopens name hname
  rw [hseen] at hsightly
  exact hsightly

theorem read_iff {bytes : ByteArray} (h : t.Tidy dir good) (hname : IsOwnName name) :
    t.read (dir.entry name) = .ok bytes ↔ t.Has dir name bytes :=
  read_entry_iff hname.isFileName (h.linkFree hname)

theorem mono (h : t.Tidy dir good)
    (hgood : ∀ name bytes, IsOwnName name → good name bytes → good' name bytes) :
    t.Tidy dir good' := by
  intro s hgrows directory hopens name hname
  exact (h s hgrows directory hopens name hname).mono fun bytes => hgood name bytes hname

theorem of_grows (h : t.Tidy dir good) (hgrows : t.Grows t') : t'.Tidy dir good := by
  intro s hs directory hopens
  rw [hgrows.working] at hopens
  exact h s (hgrows.scene.trans hs) directory hopens

theorem withTokens (h : t.Tidy dir good) (n : Nat) : Tidy { t with tokens := n } dir good := h

theorem of_alters {bytes? : Option ByteArray} (h : t.Tidy dir good)
    (halters : t.Alters dir name bytes? t')
    (hothers : ∀ other bytes, other ≠ name → good other bytes → good' other bytes)
    (hnew : ∀ bytes, bytes? = some bytes → good' name bytes) : t'.Tidy dir good' := by
  intro s hgrows directory hopens other hother
  obtain ⟨place, hplace, -, -⟩ := halters.change
  have hplace' : s.Opens t'.working dir place :=
    Scene.Opens.of_keeps hgrows.keeps (halters.opens_iff.2 hplace)
  obtain rfl := hopens.unique hplace'
  have hsightly := h t.scene (.refl _) directory hplace other hother
  have hseen := halters.scene_eq hplace other
  rcases hgrows (directory ++ [other]) with heq | ⟨-, hdir⟩
  · rw [heq, hseen]
    by_cases hname : other = name
    · rw [if_pos hname, hname]
      cases bytes? with
      | none => trivial
      | some bytes => exact hnew bytes rfl
    · rw [if_neg hname]
      exact hsightly.mono fun bytes => hothers other bytes hname
  · rw [hdir]
    trivial

end Tidy

theorem tidy_of_none (h : ∀ place name, IsOwnName name → t.scene (place ++ [name]) = none) :
    t.Tidy dir good := by
  intro s hgrows directory _ name hname
  rcases hgrows (directory ++ [name]) with heq | ⟨-, hdir⟩
  · rw [heq, h directory name hname]
    trivial
  · rw [hdir]
    trivial

/-- A tree that differs from another in directories and temporary files only. -/
inductive Quiet (dir : Path) (t : FileTree) : FileTree → Prop
  | refl : Quiet dir t t
  | grows {t' t'' : FileTree} : Quiet dir t t' → t'.Grows t'' → Quiet dir t t''
  | token {t' : FileTree} : Quiet dir t t' → Quiet dir t { t' with tokens := t'.tokens + 1 }
  | alters {t' t'' : FileTree} {key : String} {n : Nat} {bytes? : Option ByteArray} :
      Quiet dir t t' → t'.Alters dir (temporaryName key n) bytes? t'' → Quiet dir t t''

namespace Quiet

theorem trans {t'' : FileTree} (h : t.Quiet dir t') (h' : t'.Quiet dir t'') :
    t.Quiet dir t'' := by
  induction h' with
  | refl => exact h
  | grows _ hgrows ih => exact .grows ih hgrows
  | token _ ih => exact .token ih
  | alters _ halters ih => exact .alters ih halters

private theorem has {key : String} {bytes : ByteArray} (h : t.Quiet dir t')
    (hhas : t.Has dir (fileName key) bytes) : t'.Has dir (fileName key) bytes := by
  induction h with
  | refl => exact hhas
  | grows _ hgrows ih => exact hgrows.has ih
  | token _ ih => exact ih
  | alters _ halters ih =>
    exact (halters.has_iff_of_ne (fileName_ne_temporaryName key _ _)).2 ih

theorem tidy (h : t.Quiet dir t') (htidy : t.Tidy dir good)
    (htemporary : ∀ key n bytes, good (temporaryName key n) bytes) : t'.Tidy dir good := by
  induction h with
  | refl => exact htidy
  | grows _ hgrows ih => exact ih.of_grows hgrows
  | token _ ih => exact ih.withTokens _
  | alters _ halters ih =>
    exact ih.of_alters halters (fun _ _ _ hgood => hgood) fun bytes _ => htemporary _ _ bytes

end Quiet

/-- What happens leaves the entries of a directory as they are, whatever it does elsewhere or to
temporary files. -/
structure Spares (dir : Path) (t t' : FileTree) : Prop where
  has : ∀ key bytes, t.Has dir (fileName key) bytes → t'.Has dir (fileName key) bytes
  tidy : ∀ good, (∀ key n bytes, good (temporaryName key n) bytes) → t.Tidy dir good →
    t'.Tidy dir good

theorem Spares.refl (t : FileTree) : t.Spares dir t := ⟨fun _ _ h => h, fun _ _ h => h⟩

theorem Spares.trans {t'' : FileTree} (h : Spares dir t t') (h' : Spares dir t' t'') :
    Spares dir t t'' :=
  ⟨fun key bytes hhas => h'.has key bytes (h.has key bytes hhas),
    fun good htemporary htidy => h'.tidy good htemporary (h.tidy good htemporary htidy)⟩

theorem Quiet.spares (h : t.Quiet dir t') : Spares dir t t' :=
  ⟨fun _ _ => h.has, fun _ htemporary htidy => h.tidy htidy htemporary⟩

/-- Every file that could come to light as an entry when directories are made is one already, unless
its path is too long. -/
def Steady (t : FileTree) (dir : Path) : Prop :=
  t.Tidy dir fun name bytes =>
    Admits dir name → t.Has dir name bytes ∨ ∃ key n, name = temporaryName key n

namespace Steady

theorem spares (h : t.Steady dir) (hspares : Spares dir t t') : t'.Steady dir := by
  have htidy := hspares.tidy _ (fun key n _ _ => .inr ⟨key, n, rfl⟩) h
  refine htidy.mono ?_
  rintro name bytes (⟨key, rfl⟩ | hname) hgood hadmits
  · rcases hgood hadmits with hhas | htemporary
    · exact .inl (hspares.has key bytes hhas)
    · exact .inr htemporary
  · exact .inr hname

theorem has_iff {key : String} {bytes : ByteArray} (h : t.Steady dir) (hspares : Spares dir t t') :
    t'.Has dir (fileName key) bytes ↔ t.Has dir (fileName key) bytes := by
  refine ⟨fun hhas => ?_, hspares.has key bytes⟩
  have htidy := hspares.tidy _ (fun key n _ _ => .inr ⟨key, n, rfl⟩) h
  rcases htidy.good_of_has (isOwnName_fileName key) hhas hhas.1 with hbefore | ⟨other, n, hname⟩
  · exact hbefore
  · exact absurd hname (fileName_ne_temporaryName key other n)

theorem alters {key : String} {bytes : ByteArray} (h : t.Steady dir)
    (halters : t.Alters dir (fileName key) (some bytes) t') : t'.Steady dir := by
  refine Tidy.of_alters h halters ?_ ?_
  · intro other bytes' hne hgood hadmits
    rcases hgood hadmits with hhas | htemporary
    · exact .inl ((halters.has_iff_of_ne hne).2 hhas)
    · exact .inr htemporary
  · rintro _ ⟨⟩ -
    exact .inl halters.has_same

end Steady

end FileTree
end StepScript
