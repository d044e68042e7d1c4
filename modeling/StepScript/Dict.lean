/-!
Finite maps from text to values. The entries are kept in ascending order of their keys, each key
once, so two maps that answer every look-up alike are equal (`Dict.ext_find?`).
-/

set_option autoImplicit false
set_option relaxedAutoImplicit false

namespace StepScript

/-- A finite map with text keys. -/
structure Dict (α : Type) where
  entries : List (String × α)
  ascending : entries.Pairwise fun a b => a.1 < b.1

namespace Dict

variable {α : Type}

def lookup (key : String) : List (String × α) → Option α
  | [] => none
  | entry :: rest => if entry.1 = key then some entry.2 else lookup key rest

/-- Puts an entry at its place in ascending entries, over the one with its key if there is one. -/
def put (key : String) (value : α) : List (String × α) → List (String × α)
  | [] => [(key, value)]
  | entry :: rest =>
    if key < entry.1 then (key, value) :: entry :: rest
    else if entry.1 = key then (key, value) :: rest
    else entry :: put key value rest

private theorem lt_of_not_lt_of_ne {a b : String} (h : ¬ a < b) (hne : ¬ b = a) : b < a :=
  Std.lt_of_le_of_ne h hne

theorem mem_put {key : String} {value : α} {entry : String × α} {es : List (String × α)}
    (h : entry ∈ put key value es) : entry = (key, value) ∨ entry ∈ es := by
  induction es with
  | nil => simpa [put] using h
  | cons e es ih =>
    unfold put at h
    split at h
    · simpa using h
    · split at h
      · simp only [List.mem_cons] at h ⊢
        rcases h with h | h
        · exact Or.inl h
        · exact Or.inr (Or.inr h)
      · simp only [List.mem_cons] at h ⊢
        rcases h with rfl | h
        · exact Or.inr (Or.inl rfl)
        · rcases ih h with h | h
          · exact Or.inl h
          · exact Or.inr (Or.inr h)

theorem pairwise_put (key : String) (value : α) {es : List (String × α)}
    (h : es.Pairwise fun a b => a.1 < b.1) :
    (put key value es).Pairwise fun a b => a.1 < b.1 := by
  induction es with
  | nil => simp [put]
  | cons e es ih =>
    have hes := List.pairwise_cons.1 h
    unfold put
    split
    next hlt =>
      refine List.pairwise_cons.2 ⟨fun x hx => ?_, h⟩
      rcases List.mem_cons.1 hx with rfl | hx
      · exact hlt
      · exact String.lt_trans hlt (hes.1 x hx)
    next hnot =>
      split
      next heq =>
        exact List.pairwise_cons.2 ⟨fun x hx => heq ▸ hes.1 x hx, hes.2⟩
      next hne =>
        refine List.pairwise_cons.2 ⟨fun x hx => ?_, ih hes.2⟩
        rcases mem_put hx with rfl | hx
        · exact lt_of_not_lt_of_ne hnot hne
        · exact hes.1 x hx

theorem lookup_put (key other : String) (value : α) (es : List (String × α)) :
    lookup other (put key value es) = if key = other then some value else lookup other es := by
  induction es with
  | nil => simp [put, lookup]
  | cons e es ih =>
    unfold put
    split
    · simp [lookup]
    · split
      next heq =>
        by_cases h : key = other
        · simp [lookup, h]
        · simp [lookup, h, heq]
      next hne =>
        by_cases h : key = other
        · subst h
          simp [lookup, hne, ih]
        · simp [lookup, ih, h]

def empty : Dict α := ⟨[], List.Pairwise.nil⟩

instance : Inhabited (Dict α) := ⟨empty⟩

instance : EmptyCollection (Dict α) := ⟨empty⟩

def find? (d : Dict α) (key : String) : Option α := lookup key d.entries

def contains (d : Dict α) (key : String) : Bool := (d.find? key).isSome

def insert (d : Dict α) (key : String) (value : α) : Dict α :=
  ⟨put key value d.entries, pairwise_put key value d.ascending⟩

def erase (d : Dict α) (key : String) : Dict α :=
  ⟨d.entries.filter fun entry => entry.1 != key, d.ascending.filter _⟩

/-- Gives each key of a list of entries its value, from left to right. -/
def insertAll (d : Dict α) (entries : List (String × α)) : Dict α :=
  entries.foldl (fun d entry => d.insert entry.1 entry.2) d

/-- The map of a list of entries, in which the last entry of a key holds. -/
def ofList (entries : List (String × α)) : Dict α := empty.insertAll entries

/-- Extends a map by another, whose values hold where both have a key. -/
def merge (d later : Dict α) : Dict α := d.insertAll later.entries

def keys (d : Dict α) : List String := d.entries.map Prod.fst

def size (d : Dict α) : Nat := d.entries.length

def isEmpty (d : Dict α) : Bool := d.entries.isEmpty

def mapValues {β : Type} (f : α → β) (d : Dict α) : Dict β :=
  ⟨d.entries.map fun entry => (entry.1, f entry.2), List.pairwise_map.2 d.ascending⟩

@[ext]
theorem ext {d e : Dict α} (h : d.entries = e.entries) : d = e := by
  cases d
  cases e
  cases h
  rfl

instance [DecidableEq α] : DecidableEq (Dict α) := fun d e =>
  if h : d.entries = e.entries then isTrue (ext h) else isFalse fun he => h (he ▸ rfl)

@[simp]
theorem find?_empty (key : String) : (empty : Dict α).find? key = none := rfl

theorem find?_insert (d : Dict α) (key other : String) (value : α) :
    (d.insert key value).find? other = if key = other then some value else d.find? other :=
  lookup_put key other value d.entries

theorem find?_erase (d : Dict α) (key other : String) :
    (d.erase key).find? other = if key = other then none else d.find? other := by
  obtain ⟨es, hes⟩ := d
  simp only [erase, find?]
  clear hes
  induction es with
  | nil => simp [lookup]
  | cons e es ih =>
    by_cases h : e.1 = key
    · rw [List.filter_cons_of_neg (by simp [h]), ih]
      by_cases ho : key = other
      · simp [ho]
      · simp [lookup, h, ho]
    · rw [List.filter_cons_of_pos (by simp [h])]
      by_cases ho : key = other
      · subst ho
        simpa [lookup, h] using ih
      · simp only [lookup, ih]
        simp [ho]

private theorem lookup_of_mem {es : List (String × α)} (h : es.Pairwise fun a b => a.1 < b.1)
    {entry : String × α} (hm : entry ∈ es) : lookup entry.1 es = some entry.2 := by
  induction es with
  | nil => simp at hm
  | cons e es ih =>
    have hes := List.pairwise_cons.1 h
    rcases List.mem_cons.1 hm with rfl | hm
    · simp [lookup]
    · have hlt := hes.1 entry hm
      have hne : ¬ e.1 = entry.1 := fun he => String.lt_irrefl _ (he ▸ hlt)
      simpa [lookup, hne] using ih hes.2 hm

private theorem mem_of_lookup {es : List (String × α)} {key : String} {value : α}
    (h : lookup key es = some value) : (key, value) ∈ es := by
  induction es with
  | nil => simp [lookup] at h
  | cons e es ih =>
    unfold lookup at h
    split at h
    next heq =>
      cases h
      subst heq
      exact List.mem_cons_self
    next => exact List.mem_cons_of_mem _ (ih h)

theorem find?_eq_some_iff {d : Dict α} {key : String} {value : α} :
    d.find? key = some value ↔ (key, value) ∈ d.entries :=
  ⟨mem_of_lookup, fun h => lookup_of_mem d.ascending h⟩

private theorem entries_eq_of_mem_iff {es fs : List (String × α)}
    (he : es.Pairwise fun a b => a.1 < b.1) (hf : fs.Pairwise fun a b => a.1 < b.1)
    (h : ∀ entry, entry ∈ es ↔ entry ∈ fs) : es = fs := by
  induction es generalizing fs with
  | nil =>
    cases fs with
    | nil => rfl
    | cons f fs => exact absurd ((h f).2 List.mem_cons_self) (by simp)
  | cons e es ih =>
    cases fs with
    | nil => exact absurd ((h e).1 List.mem_cons_self) (by simp)
    | cons f fs =>
      have hes := List.pairwise_cons.1 he
      have hfs := List.pairwise_cons.1 hf
      have hef : e = f := by
        rcases List.mem_cons.1 ((h e).1 List.mem_cons_self) with h1 | h1
        · exact h1
        · rcases List.mem_cons.1 ((h f).2 List.mem_cons_self) with h2 | h2
          · exact h2.symm
          · exact absurd (String.lt_trans (hfs.1 e h1) (hes.1 f h2)) (String.lt_irrefl _)
      subst hef
      congr 1
      refine ih hes.2 hfs.2 fun entry => ⟨fun hm => ?_, fun hm => ?_⟩
      · rcases List.mem_cons.1 ((h entry).1 (List.mem_cons_of_mem _ hm)) with rfl | h1
        · exact absurd (hes.1 _ hm) (String.lt_irrefl _)
        · exact h1
      · rcases List.mem_cons.1 ((h entry).2 (List.mem_cons_of_mem _ hm)) with rfl | h1
        · exact absurd (hfs.1 _ hm) (String.lt_irrefl _)
        · exact h1

theorem find?_insertAll (d : Dict α) (entries : List (String × α)) (key : String) :
    (d.insertAll entries).find? key = (lookup key entries.reverse).or (d.find? key) := by
  induction entries generalizing d with
  | nil => simp [insertAll, lookup]
  | cons e es ih =>
    have hsplit (rest : List (String × α)) :
        lookup key (rest ++ [e]) = (lookup key rest).or (lookup key [e]) := by
      induction rest with
      | nil => rfl
      | cons r rest ihr =>
        by_cases h : r.1 = key
        · simp [lookup, h]
        · simpa [lookup, h] using ihr
    rw [List.reverse_cons, hsplit, Option.or_assoc]
    have hstep : (d.insertAll (e :: es)) = (d.insert e.1 e.2).insertAll es := rfl
    rw [hstep, ih, find?_insert]
    by_cases h : e.1 = key <;> simp [lookup, h]

/-- The entries of a list stay when the list becomes a map. -/
theorem mem_of_mem_ofList {entry : String × α} {entries : List (String × α)}
    (h : entry ∈ (ofList entries).entries) : entry ∈ entries := by
  have hfind := find?_eq_some_iff.2 h
  rw [ofList, find?_insertAll, find?_empty, Option.or_none] at hfind
  exact List.mem_reverse.1 (mem_of_lookup hfind)

private theorem lookup_eq_none_iff {es : List (String × α)} {key : String} :
    lookup key es = none ↔ key ∉ es.map Prod.fst := by
  induction es with
  | nil => simp [lookup]
  | cons e es ih =>
    by_cases h : e.1 = key
    · simp [lookup, h]
    · have hne : key ≠ e.1 := fun he => h he.symm
      simp only [lookup, h, if_false, ih, List.map_cons, List.mem_cons, hne, false_or]

/-- A map of a list of entries has just the keys of the list. -/
theorem find?_ofList_eq_none_iff {entries : List (String × α)} {key : String} :
    (ofList entries).find? key = none ↔ key ∉ entries.map Prod.fst := by
  rw [ofList, find?_insertAll, find?_empty, Option.or_none, lookup_eq_none_iff, List.map_reverse,
    List.mem_reverse]

private theorem put_of_forall_lt {key : String} {value : α} {es : List (String × α)}
    (h : ∀ e ∈ es, e.1 < key) : put key value es = es ++ [(key, value)] := by
  induction es with
  | nil => rfl
  | cons e es ih =>
    have he := h e (by simp)
    have hnot : ¬ key < e.1 := fun hlt => String.lt_irrefl _ (String.lt_trans he hlt)
    have hne : e.1 ≠ key := fun heq => String.lt_irrefl _ (heq ▸ he)
    simp [put, hnot, hne, ih fun e he => h e (by simp [he])]

private theorem entries_insertAll {d : Dict α} {es : List (String × α)}
    (h : (d.entries ++ es).Pairwise fun a b => a.1 < b.1) :
    (d.insertAll es).entries = d.entries ++ es := by
  induction es generalizing d with
  | nil => simp [insertAll]
  | cons e es ih =>
    have hlt : ∀ a ∈ d.entries, a.1 < e.1 := fun a ha =>
      (List.pairwise_append.1 h).2.2 a ha e (by simp)
    have hinsert : (d.insert e.1 e.2).entries = d.entries ++ [e] := put_of_forall_lt hlt
    have hstep : d.insertAll (e :: es) = (d.insert e.1 e.2).insertAll es := rfl
    rw [hstep, ih (by simpa [hinsert] using h), hinsert]
    simp

/-- Ascending entries stay as they are when they become a map. -/
theorem entries_ofList {es : List (String × α)} (h : es.Pairwise fun a b => a.1 < b.1) :
    (ofList es).entries = es := entries_insertAll h

theorem find?_merge (d later : Dict α) (key : String) :
    (d.merge later).find? key = (later.find? key).or (d.find? key) := by
  have hsame : lookup key later.entries.reverse = later.find? key := by
    have hlater : ofList later.entries = later := ext (entries_ofList later.ascending)
    have hfind := find?_insertAll empty later.entries key
    rw [find?_empty, Option.or_none] at hfind
    rw [← hfind]
    exact congrArg (fun d => d.find? key) hlater
  rw [← hsame]
  exact find?_insertAll d later.entries key

/-- Maps that answer every look-up alike are equal. -/
theorem ext_find? {d e : Dict α} (h : ∀ key, d.find? key = e.find? key) : d = e := by
  refine ext (entries_eq_of_mem_iff d.ascending e.ascending fun entry => ?_)
  rw [← find?_eq_some_iff, ← find?_eq_some_iff, h]

end Dict
end StepScript
