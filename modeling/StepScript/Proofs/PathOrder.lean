import Mathlib.Data.List.Lex
import Mathlib.Data.Prod.Lex
import Mathlib.Data.String.Basic
import StepScript.Proofs.EntryPath

/-!
The order of paths. A part comes before another as its rank does, and a path before another as the
list of its ranks does; so paths are in a linear order but for how they are written, and a list of
paths with different parts is sorted into a strictly ascending one.
-/

set_option autoImplicit false
set_option relaxedAutoImplicit false

namespace StepScript.Path

def Part.key (p : Part) : ℕ ×ₗ String := toLex p.rank

private theorem Part.key_injective : Function.Injective Part.key := by
  intro a b h
  have hrank : a.rank = b.rank := toLex.injective h
  cases a <;> cases b <;> simp_all [Part.rank]

private theorem Part.before_iff (a b : Part) : a.before b = true ↔ a.key < b.key := by
  simp [Part.before, Part.key, Prod.Lex.toLex_lt_toLex]

private theorem partsBefore_iff (as bs : List Part) :
    partsBefore as bs = true ↔ as.map Part.key < bs.map Part.key := by
  fun_induction partsBefore as bs with
  | case1 as => simp
  | case2 b bs => simp
  | case3 a as b bs heq ih =>
    obtain rfl := eq_of_beq heq
    simp [ih]
  | case4 a as b bs hne =>
    have hkeys : a.key ≠ b.key := fun h => hne (by simpa using Part.key_injective h)
    simp [Part.before_iff, List.cons_lt_cons_iff, hkeys]

/-- A path, as far as the order of paths sees it. -/
def ranks (p : Path) : List (ℕ ×ₗ String) := p.parts.map Part.key

theorem before_iff (p q : Path) : p.before q = true ↔ p.ranks < q.ranks :=
  partsBefore_iff p.parts q.parts

private theorem ranks_inj {p q : Path} : p.ranks = q.ranks ↔ p.parts = q.parts :=
  (List.map_injective_iff.2 Part.key_injective).eq_iff

/-- Things whose paths have different parts are sorted into strictly ascending order. -/
theorem pairwise_before_mergeSort {α : Type} (path : α → Path) {xs : List α}
    (h : (xs.map fun x => (path x).parts).Nodup) :
    (xs.mergeSort fun a b => !(path b).before (path a)).Pairwise
      fun a b => (path a).before (path b) = true := by
  have hle (a b : α) : (!(path b).before (path a)) = true ↔ (path a).ranks ≤ (path b).ranks := by
    rw [Bool.not_eq_true', ← not_lt, ← before_iff, Bool.not_eq_true]
  have hsorted : (xs.mergeSort fun a b => !(path b).before (path a)).Pairwise
      fun a b => (path a).ranks ≤ (path b).ranks := by
    refine (List.pairwise_mergeSort ?_ ?_ xs).imp fun hab => (hle _ _).1 hab
    · exact fun a b c hab hbc => (hle a c).2 (((hle a b).1 hab).trans ((hle b c).1 hbc))
    · intro a b
      rw [Bool.or_eq_true, hle, hle]
      exact le_total _ _
  have hperm := (List.mergeSort_perm xs fun a b => !(path b).before (path a)).map
    fun x => (path x).parts
  have hdistinct := List.pairwise_map.1 (hperm.nodup_iff.2 h)
  refine (hsorted.and hdistinct).imp fun {a b} hab => ?_
  rw [before_iff]
  exact lt_of_le_of_ne hab.1 fun heq => hab.2 (ranks_inj.1 heq)

/-! ## The parts of an entry's path -/

theorem parts_entry_entry_inj (dir : Path) {scope scope' name name' : String}
    (hscope : IsFileName scope) (hscope' : IsFileName scope') (hname : IsFileName name)
    (hname' : IsFileName name')
    (h : ((dir.entry scope).entry name).parts = ((dir.entry scope').entry name').parts) :
    scope = scope' ∧ name = name' := by
  simp only [parts_entry _ hname, parts_entry _ hname', stem_entry _ hscope, stem_entry _ hscope',
    parts_entry _ hscope, parts_entry _ hscope', List.append_assoc] at h
  simpa using List.append_cancel_left h

end StepScript.Path
