import StepScript.Proofs.Along
import StepScript.Proofs.Recording

/-!
Worlds with a log. What is worth noting is entered in the log as it happens; anything else is done
beside it.
-/

set_option autoImplicit false
set_option relaxedAutoImplicit false

namespace StepScript

variable {ν σ α β : Type}

structure Log (ν σ : Type) where
  entries : List ν
  world : σ

namespace Log

def lift (x : StateM σ α) : StateM (Log ν σ) α :=
  fun s => ((x.run s.world).1, ⟨s.entries, (x.run s.world).2⟩)

def noting (note : α → ν) (x : StateM σ α) : StateM (Log ν σ) α :=
  fun s => ((x.run s.world).1, ⟨s.entries ++ [note (x.run s.world).1], (x.run s.world).2⟩)

theorem run_noting (note : α → ν) {x : StateM σ α} {world world' : σ} {a : α}
    (h : x.run world = (a, world')) (before : List ν) :
    (noting note x).run ⟨before, world⟩ = (a, ⟨before ++ [note a], world'⟩) := by
  have hrun : (noting note x).run ⟨before, world⟩ =
      ((x.run world).1, ⟨before ++ [note (x.run world).1], (x.run world).2⟩) := rfl
  rw [hrun, h]

/-- Between two worlds nothing is noted but what satisfies a condition. -/
def Adds (P : ν → Prop) (l l' : Log ν σ) : Prop :=
  ∃ more, l'.entries = l.entries ++ more ∧ ∀ e ∈ more, P e

theorem isPath_adds (P : ν → Prop) : IsPath (Adds P : Log ν σ → Log ν σ → Prop) where
  refl l := ⟨[], (List.append_nil l.entries).symm, nofun⟩
  trans := by
    rintro l l' l'' ⟨more, hmore, hP⟩ ⟨more', hmore', hP'⟩
    refine ⟨more ++ more', by rw [hmore', hmore, List.append_assoc], fun e he => ?_⟩
    rcases List.mem_append.1 he with he | he
    · exact hP e he
    · exact hP' e he

theorem along_lift (P : ν → Prop) (x : StateM σ α) : Along (Adds P) (lift x : StateM (Log ν σ) α) :=
  fun l => (isPath_adds P).refl l

theorem along_noting {P : ν → Prop} {note : α → ν} (hnote : ∀ a, P (note a)) (x : StateM σ α) :
    Along (Adds P) (noting note x) :=
  fun _ => ⟨[note _], rfl, by simpa using hnote _⟩

end Log

/-- A run beside a log does what another one does, and notes nothing. -/
def Lifts (x : StateM σ α) (y : StateM (Log ν σ) α) : Prop :=
  ∀ before world, y.run ⟨before, world⟩ = ((x.run world).1, ⟨before, (x.run world).2⟩)

namespace Lifts

theorem pure (a : α) : Lifts (pure a : StateM σ α) (pure a : StateM (Log ν σ) α) :=
  fun _ _ => rfl

theorem lift (x : StateM σ α) : Lifts x (Log.lift x : StateM (Log ν σ) α) := fun _ _ => rfl

theorem bind {x : StateM σ α} {y : StateM (Log ν σ) α} {f : α → StateM σ β}
    {g : α → StateM (Log ν σ) β} (hx : Lifts x y) (hf : ∀ a, Lifts (f a) (g a)) :
    Lifts (x >>= f) (y >>= g) := by
  intro before world
  rw [run_bind_of (hx before world), hf]
  rfl

end Lifts

end StepScript
