import StepScript.Proofs.Resolution

/-!
The path of an entry of a directory. Its names are those of the directory and the entry's own,
however the directory's path is written; so all entries of a directory are found by looking up
their names in one place, and another extension gives the path of another entry.
-/

set_option autoImplicit false
set_option relaxedAutoImplicit false

namespace StepScript

structure IsFileName (name : String) : Prop extends IsEntryName name where
  ne_empty : name ≠ ""
  noSlash : '/' ∉ name.toList
  noNul : Char.ofNat 0 ∉ name.toList

instance (name : String) : Decidable (IsFileName name) :=
  decidable_of_iff ((name ≠ "." ∧ name ≠ "..") ∧ name ≠ "" ∧ '/' ∉ name.toList ∧
      Char.ofNat 0 ∉ name.toList)
    ⟨fun ⟨⟨hhere, hup⟩, hne, hslash, hnul⟩ => ⟨⟨hhere, hup⟩, hne, hslash, hnul⟩,
      fun h => ⟨⟨h.ne_here, h.ne_up⟩, h.ne_empty, h.noSlash, h.noNul⟩⟩

private theorem Text.splitAtEach_eq_splitOn (mark : Char) (cs : List Char) :
    splitAtEach mark cs = cs.splitOn mark := by
  induction cs with
  | nil => rfl
  | cons c cs ih =>
    rw [splitAtEach, List.splitOn_cons_eq_if_modifyHead, ih]
    by_cases hc : c = mark
    · simp [hc]
    · simp only [hc, if_false, beq_iff_eq]
      cases hpieces : cs.splitOn mark with
      | nil => exact absurd hpieces (List.splitOn_ne_nil _ _)
      | cons piece pieces => rfl

namespace Path

def names (p : Path) : List String := p.pieces.filter fun piece => piece != ""

/-- The pieces that stand before an entry's name. -/
def front (p : Path) : List String :=
  if p.pieces.getLast? = some "" then p.pieces.dropLast else p.pieces

private theorem pieces_eq (p : Path) : p.pieces =
    (p.text.toList.splitOn '/').map String.ofList := by
  rw [pieces, Text.splitAtEach_eq_splitOn]

private theorem exists_splitOn_append_singleton (xs : List Char) {c : Char} (hc : c ≠ '/') :
    ∃ init last, (xs ++ [c]).splitOn '/' = init ++ [last ++ [c]] := by
  induction xs with
  | nil => exact ⟨[], [], by simp [List.splitOn_eq_singleton, hc.symm]⟩
  | cons x xs ih =>
    obtain ⟨init, last, h⟩ := ih
    rw [List.cons_append, List.splitOn_cons_eq_if_modifyHead, h]
    by_cases hx : x = '/'
    · exact ⟨[] :: init, last, by simp [hx]⟩
    · cases init with
      | nil => exact ⟨[], x :: last, by simp [hx]⟩
      | cons piece init => exact ⟨(x :: piece) :: init, last, by simp [hx]⟩

private theorem splitOn_name {name : String} (h : '/' ∉ name.toList) :
    (name.toList.splitOn '/').map String.ofList = [name] := by
  simp [List.splitOn_eq_singleton h]

private theorem splitOn_before_name (xs : List Char) {name : String} (h : '/' ∉ name.toList) :
    ((xs ++ '/' :: name.toList).splitOn '/').map String.ofList =
      (xs.splitOn '/').map String.ofList ++ [name] := by
  rw [List.splitOn_append_cons_self, List.map_append, splitOn_name h]

private theorem isAbsolute_name {name : String} (h : '/' ∉ name.toList) :
    (Path.mk name).isAbsolute = false := by
  unfold isAbsolute
  cases hcs : name.toList with
  | nil => rfl
  | cons c cs =>
    rw [hcs] at h
    simp only [List.head?_cons, beq_eq_false_iff_ne, ne_eq, Option.some.injEq]
    rintro rfl
    exact h List.mem_cons_self

private theorem front_cases (p : Path) :
    (p.text.toList = [] ∧ p.front = []) ∨
      (∃ xs, p.text.toList = xs ++ ['/'] ∧ p.front = (xs.splitOn '/').map String.ofList) ∨
      (∃ xs c, p.text.toList = xs ++ [c] ∧ c ≠ '/' ∧ p.front = p.pieces) := by
  have hpieces := p.pieces_eq
  rcases List.eq_nil_or_concat p.text.toList with hnil | ⟨xs, c, hcs⟩
  · left
    rw [hnil] at hpieces
    exact ⟨hnil, by simp [front, hpieces]⟩
  · rw [List.concat_eq_append] at hcs
    rw [hcs] at hpieces
    by_cases hc : c = '/'
    · subst hc
      right
      left
      have hsplit : p.pieces = (xs.splitOn '/').map String.ofList ++ [""] := by
        rw [hpieces, List.splitOn_append_cons_self, List.map_append]
        simp
      exact ⟨xs, hcs, by simp [front, hsplit]⟩
    · right
      right
      obtain ⟨init, last, hlast⟩ := exists_splitOn_append_singleton xs hc
      refine ⟨xs, c, hcs, hc, ?_⟩
      rw [hlast, List.map_append, List.map_singleton] at hpieces
      simp [front, hpieces]

private theorem text_entry (dir : Path) {name : String} (h : '/' ∉ name.toList) :
    (dir.entry name).text.toList =
      if dir.text.toList = [] ∨ dir.text.toList.getLast? = some '/' then
        dir.text.toList ++ name.toList
      else dir.text.toList ++ '/' :: name.toList := by
  have hempty : dir.text = "" ↔ dir.text.toList = [] := by
    rw [← String.toList_inj]
    rfl
  unfold entry join
  simp only [isAbsolute_name h, if_false, Bool.false_eq_true, Bool.or_eq_true, beq_iff_eq, hempty]
  split
  · exact String.toList_append
  · simp [String.toList_append]

private theorem pieces_entry (dir : Path) {name : String} (h : '/' ∉ name.toList) :
    (dir.entry name).pieces = dir.front ++ [name] := by
  rw [pieces_eq, text_entry dir h]
  rcases front_cases dir with ⟨hnil, hfront⟩ | ⟨xs, hcs, hfront⟩ | ⟨xs, c, hcs, hc, hfront⟩
  · simp [hnil, hfront, splitOn_name h]
  · rw [if_pos (by simp [hcs]), hcs, hfront, List.append_assoc]
    exact splitOn_before_name xs h
  · rw [if_neg (by simp [hcs, hc]), hfront, pieces_eq]
    exact splitOn_before_name _ h

private theorem filter_front (dir : Path) :
    dir.front.filter (fun piece => piece != "") = dir.names := by
  unfold front names
  split
  · next hlast =>
    obtain ⟨init, hinit⟩ := List.getLast?_eq_some_iff.1 hlast
    simp [hinit]
  · rfl

theorem names_entry (dir : Path) {name : String} (h : IsFileName name) :
    (dir.entry name).names = dir.names ++ [name] := by
  rw [names, pieces_entry dir h.noSlash, List.filter_append, filter_front]
  simp [h.ne_empty]

theorem piecesOf_entry (dir : Path) {name : String} (h : IsFileName name) :
    FileTree.piecesOf (dir.entry name).text = dir.names ++ [name] := by
  have hpieces : (Path.mk (dir.entry name).text).pieces = dir.front ++ [name] :=
    pieces_entry dir h.noSlash
  unfold FileTree.piecesOf
  simp [hpieces, h.ne_empty, filter_front]

theorem isAbsolute_entry (dir : Path) {name : String} (h : '/' ∉ name.toList) :
    (dir.entry name).isAbsolute = dir.isAbsolute := by
  unfold isAbsolute
  rw [text_entry dir h]
  cases hcs : dir.text.toList with
  | cons c cs => split <;> rfl
  | nil =>
    have hname := isAbsolute_name h
    unfold isAbsolute at hname
    simpa using hname

private theorem ofPieces_pieces {p : Path} (h : p.text ≠ "") : ofPieces p.pieces = p := by
  have hjoin : "/".intercalate p.pieces = p.text := by
    rw [← String.toList_inj, String.toList_intercalate, pieces_eq, List.map_map]
    simp [Function.comp_def]
  unfold ofPieces
  split
  · next hpieces =>
    rw [hpieces] at hjoin
    exact absurd hjoin.symm h
  · exact congrArg Path.mk hjoin

private theorem ofPieces_front (dir : Path) {name : String} (h : IsFileName name) :
    ofPieces (dir.front ++ [name]) = dir.entry name := by
  rw [← pieces_entry dir h.noSlash]
  refine ofPieces_pieces fun hempty => h.ne_empty ?_
  have hlist := text_entry dir h.noSlash
  rw [hempty] at hlist
  rw [← String.toList_inj]
  split at hlist
  · exact (List.append_eq_nil_iff.1 hlist.symm).2
  · simp at hlist

theorem fileName_entry (dir : Path) {name : String} (h : IsFileName name) :
    (dir.entry name).fileName = some name := by
  have hidle : isIdle name = false := by simp [isIdle, h.ne_empty, h.ne_here]
  have hpart : Part.ofPiece name = .name name := by simp [Part.ofPiece, h.ne_up]
  have hlast : (dir.entry name).parts.getLast? = some (.name name) := by
    unfold parts
    rw [pieces_entry dir h.noSlash]
    simp [hidle, hpart]
  rw [fileName, hlast]

theorem cutExtension_append {stem extension : String} (hstem : stem ≠ "")
    (h : '.' ∉ extension.toList) :
    cutExtension (stem ++ "." ++ extension) = (stem, some extension) := by
  have hlist : (stem ++ "." ++ extension).toList = stem.toList ++ '.' :: extension.toList := by
    simp [String.toList_append]
  have hne : stem.toList ≠ [] := fun hnil => hstem (String.toList_inj.1 hnil)
  unfold cutExtension
  rw [hlist, Text.cutAtLast_append _ h]
  split
  · next hcut => exact absurd (congrArg Prod.fst (Option.some.inj hcut)) hne
  · next hcut => cases hcut
  · next hcut =>
    obtain ⟨rfl, rfl⟩ := Prod.mk.inj (Option.some.inj hcut)
    rw [String.ofList_toList, String.ofList_toList]

private theorem dropIdle_entry (dir : Path) {name : String} (h : IsFileName name) :
    dropIdle (dir.entry name).pieces.reverse = (dir.entry name).pieces.reverse := by
  have hidle : isIdle name = false := by simp [isIdle, h.ne_empty, h.ne_here]
  rw [pieces_entry dir h.noSlash, List.reverse_append, List.reverse_singleton]
  cases dir.front.reverse with
  | nil => simp [dropIdle, h.ne_empty]
  | cons piece rest => simp [dropIdle, hidle]

theorem withExtension_entry (dir : Path) {name extension : String} (h : IsFileName name)
    (hnew : IsFileName ((cutExtension name).1 ++ "." ++ extension)) :
    (dir.entry name).withExtension extension =
      dir.entry ((cutExtension name).1 ++ "." ++ extension) := by
  have hdrop : dropIdle (dir.entry name).pieces.reverse = name :: dir.front.reverse := by
    rw [dropIdle_entry dir h, pieces_entry dir h.noSlash, List.reverse_append,
      List.reverse_singleton, List.singleton_append]
  unfold withExtension
  rw [fileName_entry dir h, ← ofPieces_front dir hnew]
  simp only [hdrop, List.reverse_cons, List.reverse_reverse]

private theorem front_entry (dir : Path) {name : String} (h : IsFileName name) :
    (dir.entry name).front = (dir.entry name).pieces := by
  rw [front, if_neg]
  rw [pieces_entry dir h.noSlash]
  simp [h.ne_empty]

private theorem head?_front (dir : Path) {name : String} (h : IsFileName name) :
    (dir.front ++ [name]).head? = some "." ↔ dir.front.head? = some "." := by
  cases dir.front with
  | nil => simp [h.ne_here]
  | cons piece rest => simp

def stem (p : Path) : List Part :=
  (if p.isAbsolute then [.root] else if p.front.head? = some "." then [.here] else []) ++
    (p.front.filter fun piece => !isIdle piece).map Part.ofPiece

theorem parts_entry (dir : Path) {name : String} (h : IsFileName name) :
    (dir.entry name).parts = dir.stem ++ [.name name] := by
  have hidle : isIdle name = false := by simp [isIdle, h.ne_empty, h.ne_here]
  have hpart : Part.ofPiece name = .name name := by simp [Part.ofPiece, h.ne_up]
  unfold parts stem
  simp only [isAbsolute_entry dir h.noSlash, beq_iff_eq, pieces_entry dir h.noSlash,
    head?_front dir h, List.filter_append, List.map_append, List.append_assoc]
  simp [-List.head?_append, hidle, hpart]

theorem stem_entry (dir : Path) {name : String} (h : IsFileName name) :
    (dir.entry name).stem = (dir.entry name).parts := by
  unfold stem parts
  simp only [front_entry dir h, beq_iff_eq]

theorem parent_entry_entry (dir : Path) {scope name : String} (hscope : IsFileName scope)
    (hname : IsFileName name) : ((dir.entry scope).entry name).parent = some (dir.entry scope) := by
  have hlast := fileName_entry (dir.entry scope) hname
  have hpieces : ((dir.entry scope).entry name).pieces.reverse =
      name :: (dir.entry scope).pieces.reverse := by
    rw [pieces_entry _ hname.noSlash, front_entry dir hscope, List.reverse_append]
    rfl
  have hparent : ofPieces (dropIdle (dir.entry scope).pieces.reverse).reverse =
      dir.entry scope := by
    rw [dropIdle_entry dir hscope, List.reverse_reverse, pieces_entry dir hscope.noSlash,
      ofPieces_front dir hscope]
  unfold fileName at hlast
  unfold parent
  split at hlast
  · next text hparts =>
    rw [hparts, dropIdle_entry _ hname, hpieces]
    cases hrest : (dir.entry scope).pieces.reverse with
    | nil =>
      rw [List.reverse_eq_nil_iff, pieces_entry dir hscope.noSlash] at hrest
      simp at hrest
    | cons piece rest =>
      rw [hrest] at hparent
      exact congrArg some hparent
  · cases hlast

private theorem getLast?_text_entry (dir : Path) {name : String} (h : IsFileName name) :
    ∃ c, (dir.entry name).text.toList.getLast? = some c ∧ c ≠ '/' := by
  have hnil : name.toList ≠ [] := fun hnil => h.ne_empty (String.toList_inj.1 hnil)
  obtain ⟨init, c, hname⟩ := (List.eq_nil_or_concat name.toList).resolve_left hnil
  rw [List.concat_eq_append] at hname
  have hc : c ≠ '/' := by
    rintro rfl
    exact h.noSlash (by simp [hname])
  refine ⟨c, ?_, hc⟩
  rw [text_entry dir h.noSlash, hname]
  split
  · rw [← List.append_assoc]
    exact List.getLast?_concat
  · rw [← List.cons_append, ← List.append_assoc]
    exact List.getLast?_concat

theorem withoutSlash_entry (dir : Path) {name : String} (h : IsFileName name) :
    (dir.entry name).withoutSlash = dir.entry name := by
  obtain ⟨c, hlast, hc⟩ := getLast?_text_entry dir h
  obtain ⟨init, hinit⟩ := List.getLast?_eq_some_iff.1 hlast
  unfold withoutSlash
  rw [hinit, List.reverse_append, List.reverse_singleton, List.singleton_append,
    List.dropWhile_cons_of_neg (by simpa using hc), List.reverse_cons, List.reverse_reverse,
    ← hinit]
  split
  · rfl
  · rw [String.ofList_toList]

theorem text_entry_entry (dir : Path) {scope name : String} (hscope : IsFileName scope)
    (hname : IsFileName name) :
    ((dir.entry scope).entry name).text = (dir.entry scope).text ++ ("/" ++ name) := by
  obtain ⟨c, hlast, hc⟩ := getLast?_text_entry dir hscope
  rw [← String.toList_inj, text_entry _ hname.noSlash, if_neg, String.toList_append,
    String.toList_append]
  · rfl
  · rintro (hnil | hslash)
    · rw [hnil] at hlast
      cases hlast
    · rw [hlast] at hslash
      exact hc (Option.some.inj hslash)

end Path
end StepScript
