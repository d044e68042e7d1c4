import Mathlib.Logic.Function.Basic
import StepScript.Files.Tree
import StepScript.Matcher

/-!
Programs that several workers carry out on one file tree. A program does one thing at a time and
waits for the answer, and between two things that it does the others may do any of theirs. A change
of the tree may also fail: before it, after it, or in the middle of the bytes of a file.
-/

set_option autoImplicit false
set_option relaxedAutoImplicit false

namespace StepScript

inductive Edit
  | makeDirectory (path : Path)
  | create (path : Path)
  | write (path : Path) (bytes : ByteArray)
  | sync (path : Path)
  | rename (source target : Path)
  | remove (path : Path)

inductive Deed
  | read (path : Path)
  | kind (path : Path)
  | entries (path : Path)
  | outline (path : Path)
  | freshToken
  | edit (e : Edit)
  | ask (patterns : List String) (text : String)

def Deed.Answer : Deed → Type
  | .read _ => Except FileError ByteArray
  | .kind _ => Option FileKind
  | .entries _ => Except FileError (List DirEntry)
  | .outline _ => Except FileError Outline
  | .freshToken => String
  | .edit _ => Except FileError Unit
  | .ask _ _ => Except Failure (Option Match)

/-- A program, by what it does first and how it goes on. -/
inductive Errand (α : Type) : Type
  | done (a : α)
  | act (d : Deed) (next : d.Answer → Errand α)

namespace Errand

variable {α β : Type}

def bind : Errand α → (α → Errand β) → Errand β
  | .done a, f => f a
  | .act d next, f => .act d fun answer => (next answer).bind f

instance : Monad Errand where
  pure := done
  bind := bind

theorem pure_eq (a : α) : (pure a : Errand α) = done a := rfl

def files : FileAccess Errand where
  read path := act (.read path) done
  kind? path := act (.kind path) done
  entries path := act (.entries path) done
  outline path := act (.outline path) done
  makeDirectory path := act (.edit (.makeDirectory path)) done
  create path := act (.edit (.create path)) done
  write path bytes := act (.edit (.write path bytes)) done
  sync path := act (.edit (.sync path)) done
  rename source target := act (.edit (.rename source target)) done
  remove path := act (.edit (.remove path)) done
  freshToken := act .freshToken done

def matcher : Matcher Errand := ⟨fun patterns text => act (.ask patterns text) done⟩

end Errand

abbrev Finder := List String → String → Except Failure (Option Match)

def Edit.perform : Edit → StateM FileTree (Except FileError Unit)
  | .makeDirectory path => FileAccess.inMemory.makeDirectory path
  | .create path => FileAccess.inMemory.create path
  | .write path bytes => FileAccess.inMemory.write path bytes
  | .sync path => FileAccess.inMemory.sync path
  | .rename source target => FileAccess.inMemory.rename source target
  | .remove path => FileAccess.inMemory.remove path

namespace Edit

variable (t : FileTree) (path : Path)

private theorem run_changeWith (f : FileTree → FileTree.Change) :
    (FileAccess.changeWith f : StateM FileTree (Except FileError Unit)).run t = f t := rfl

theorem run_makeDirectory : (makeDirectory path).perform.run t = t.makeDirectory path :=
  run_changeWith t fun t => t.makeDirectory path

theorem run_create : (create path).perform.run t = t.create path :=
  run_changeWith t fun t => t.create path

theorem run_write (bytes : ByteArray) : (write path bytes).perform.run t = t.write path bytes :=
  run_changeWith t fun t => t.write path bytes

theorem run_rename (target : Path) : (rename path target).perform.run t = t.rename path target :=
  run_changeWith t fun t => t.rename path target

theorem run_remove : (remove path).perform.run t = t.remove path :=
  run_changeWith t fun t => t.remove path

end Edit

/-- The trees that a change may leave when it fails. -/
inductive Edit.Fails : Edit → FileTree → FileTree → Prop
  | before (e : Edit) (t : FileTree) : Fails e t t
  | after (e : Edit) (t : FileTree) : Fails e t (e.perform.run t).2
  | midway (path : Path) (bytes part : ByteArray) (t : FileTree) :
      Fails (.write path bytes) t (t.write path part).2

def Deed.perform (find : Finder) : (d : Deed) → StateM FileTree d.Answer
  | .read path => FileAccess.inMemory.read path
  | .kind path => FileAccess.inMemory.kind? path
  | .entries path => FileAccess.inMemory.entries path
  | .outline path => FileAccess.inMemory.outline path
  | .freshToken => FileAccess.inMemory.freshToken
  | .edit e => e.perform
  | .ask patterns text => pure (find patterns text)

/-- How a deed may go. -/
inductive Deed.Goes (find : Finder) : (d : Deed) → FileTree → d.Answer → FileTree → Prop
  | performed (d : Deed) (t : FileTree) :
      Goes find d t ((d.perform find).run t).1 ((d.perform find).run t).2
  | failed {e : Edit} {t t' : FileTree} (reason : FileError) (h : e.Fails t t') :
      Goes find (.edit e) t (.error reason) t'

theorem Deed.Goes.read {find : Finder} {path : Path} {t t' : FileTree}
    {answer : Except FileError ByteArray} (h : Goes find (.read path) t answer t') :
    answer = t.read path ∧ t' = t := by
  cases h
  exact ⟨rfl, rfl⟩

def Errand.perform {α : Type} (find : Finder) : Errand α → StateM FileTree α
  | .done a => pure a
  | .act d next => do
    let answer ← d.perform find
    (next answer).perform find

/-- Workers with one file tree, and what each of them has still to do. -/
structure Crew (ι α : Type) where
  files : FileTree
  left : ι → Errand α

namespace Crew

variable {ι α : Type} [DecidableEq ι] {find : Finder} {c c' : Crew ι α}

/-- A worker goes on by one deed. -/
inductive Step (find : Finder) (c : Crew ι α) : ι × Deed → Crew ι α → Prop
  | deed {i : ι} {d : Deed} {next : d.Answer → Errand α} {answer : d.Answer} {t : FileTree}
      (hleft : c.left i = .act d next) (hgoes : d.Goes find c.files answer t) :
      Step find c (i, d) ⟨t, Function.update c.left i (next answer)⟩

/-- The workers go on in any order. The list says who did what. -/
inductive Runs (find : Finder) : Crew ι α → List (ι × Deed) → Crew ι α → Prop
  | refl (c : Crew ι α) : Runs find c [] c
  | step {c c' c'' : Crew ι α} {deed : ι × Deed} {deeds : List (ι × Deed)} :
      c.Step find deed c' → Runs find c' deeds c'' → Runs find c (deed :: deeds) c''

def finish (find : Finder) (c : Crew ι α) (i : ι) : Crew ι α :=
  ⟨(((c.left i).perform find).run c.files).2,
    Function.update c.left i (.done (((c.left i).perform find).run c.files).1)⟩

theorem finish_left (find : Finder) (c : Crew ι α) (i : ι) :
    (c.finish find i).left i = .done (((c.left i).perform find).run c.files).1 :=
  Function.update_self i _ _

/-- A worker can always go on to its end, whatever the others have left. -/
theorem runs_finish (find : Finder) (c : Crew ι α) (i : ι) :
    ∃ deeds, c.Runs find deeds (c.finish find i) ∧ ∀ deed ∈ deeds, deed.1 = i := by
  cases c with
  | mk t left =>
    -- The induction is on what the worker has still to do.
    generalize hleft : left i = errand
    induction errand generalizing t left with
    | done a =>
      refine ⟨[], ?_, nofun⟩
      have hsame : finish find ⟨t, left⟩ i = ⟨t, left⟩ := by
        unfold finish
        simp only [hleft]
        exact congrArg (Crew.mk t) (Function.update_eq_self_iff.2 hleft.symm)
      rw [hsame]
      exact .refl _
    | act d next ih =>
      have hstep : Step find ⟨t, left⟩ (i, d) ⟨_, Function.update left i _⟩ :=
        .deed hleft (.performed d t)
      obtain ⟨deeds, hruns, hown⟩ := ih ((d.perform find).run t).1 ((d.perform find).run t).2
        (Function.update left i _) (Function.update_self i _ left)
      have hsame : finish find ⟨((d.perform find).run t).2,
          Function.update left i (next ((d.perform find).run t).1)⟩ i = finish find ⟨t, left⟩ i := by
        unfold finish
        simp only [hleft, Function.update_self, Function.update_idem]
        rfl
      rw [hsame] at hruns
      exact ⟨(i, d) :: deeds, .step hstep hruns, List.forall_mem_cons.2 ⟨rfl, hown⟩⟩

end Crew
end StepScript
