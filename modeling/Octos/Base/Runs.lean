import Mathlib.Logic.Relation
import Mathlib.Data.List.Induction

/-!
# Runs of a transition system

A system steps from state to state on inputs; a run applies a list of inputs in order. A guard
restricts the inputs by the state they meet. An invariant that every guarded step keeps holds
after every guarded run.
-/

namespace Octos

variable {σ ι β l : Type}

section

variable (step : σ → ι → σ) (ok : σ → ι → Prop)

/-- The state after the inputs `is`, in order. -/
def runSteps (s : σ) (is : List ι) : σ := is.foldl step s

@[simp] theorem runSteps_nil (s : σ) : runSteps step s [] = s := rfl

@[simp] theorem runSteps_cons (s : σ) (i : ι) (is : List ι) :
    runSteps step s (i :: is) = runSteps step (step s i) is := rfl

theorem runSteps_append (s : σ) (is js : List ι) :
    runSteps step s (is ++ js) = runSteps step (runSteps step s is) js := List.foldl_append

theorem runSteps_snoc (s : σ) (is : List ι) (i : ι) :
    runSteps step s (is ++ [i]) = step (runSteps step s is) i := by
  rw [runSteps_append]
  rfl

/-- Every input of the run meets the guard in the state it meets. -/
def Guarded : σ → List ι → Prop
  | _, [] => True
  | s, i :: is => ok s i ∧ Guarded (step s i) is

instance decidableGuarded [∀ s i, Decidable (ok s i)] :
    ∀ (s : σ) (is : List ι), Decidable (Guarded step ok s is)
  | _, [] => inferInstanceAs (Decidable True)
  | s, i :: is =>
    have := decidableGuarded (step s i) is
    inferInstanceAs (Decidable (ok s i ∧ Guarded step ok (step s i) is))

variable {is : List ι} {s : σ}

theorem guarded_append {js : List ι} :
    Guarded step ok s (is ++ js) ↔ Guarded step ok s is ∧
      Guarded step ok (runSteps step s is) js := by
  induction is generalizing s with
  | nil => simp [Guarded]
  | cons i is ih => simp [Guarded, ih, and_assoc]

theorem guarded_snoc {i : ι} :
    Guarded step ok s (is ++ [i]) ↔ Guarded step ok s is ∧ ok (runSteps step s is) i := by
  simp [guarded_append, Guarded]

variable {step ok} {P : σ → Prop}

theorem runSteps_invariant (hstep : ∀ s i, P s → P (step s i)) (hs : P s)
    (is : List ι) : P (runSteps step s is) := by
  induction is generalizing s with
  | nil => exact hs
  | cons i is ih => exact ih (hstep s i hs)

theorem Guarded.invariant (hstep : ∀ s i, P s → ok s i → P (step s i))
    (h : Guarded step ok s is) (hs : P s) : P (runSteps step s is) := by
  induction is generalizing s with
  | nil => exact hs
  | cons i is ih => exact ih h.2 (hstep s i hs h.1)

theorem guarded_of_forall {ok : ι → Prop} (s : σ) (h : ∀ i ∈ is, ok i) :
    Guarded step (fun _ i => ok i) s is := by
  induction is generalizing s with
  | nil => trivial
  | cons i is ih =>
    obtain ⟨hi, his⟩ := List.forall_mem_cons.mp h
    exact ⟨hi, ih (step s i) his⟩

theorem Guarded.and {ok' : σ → ι → Prop} (h : Guarded step ok s is) (h' : Guarded step ok' s is) :
    Guarded step (fun s i => ok s i ∧ ok' s i) s is := by
  induction is generalizing s with
  | nil => trivial
  | cons i is ih => exact ⟨⟨h.1, h'.1⟩, ih h.2 h'.2⟩

variable (step) in
/-- What the steps of the run put out, in order. -/
def outputs (out : σ → ι → Option β) : σ → List ι → List β
  | _, [] => []
  | s, i :: is => (out s i).toList ++ outputs out (step s i) is

theorem outputs_append (out : σ → ι → Option β) (s : σ) (is js : List ι) :
    outputs step out s (is ++ js) =
      outputs step out s is ++ outputs step out (runSteps step s is) js := by
  induction is generalizing s with
  | nil => rfl
  | cons i is ih => rw [List.cons_append, outputs, outputs, ih, List.append_assoc, runSteps_cons]

theorem outputs_snoc (out : σ → ι → Option β) (s : σ) (is : List ι) (i : ι) :
    outputs step out s (is ++ [i]) =
      outputs step out s is ++ (out (runSteps step s is) i).toList := by
  rw [outputs_append, outputs, outputs, List.append_nil]

theorem Guarded.induction_snoc {P : List ι → Prop} (hnil : P [])
    (hsnoc : ∀ is i, P is → ok (runSteps step s is) i → P (is ++ [i])) (h : Guarded step ok s is) :
    P is := by
  induction is using List.reverseRecOn with
  | nil => exact hnil
  | append_singleton is i ih =>
    obtain ⟨his, hi⟩ := (guarded_snoc step ok).mp h
    exact hsnoc is i (ih his) hi

end

section

variable (R : l → σ → σ → Prop)

/-- `s'` is reached from `s` by finitely many steps of `R`, each with a label in `L`. -/
def StepsIn (L : l → Prop) : σ → σ → Prop :=
  Relation.ReflTransGen fun s s' => ∃ a, L a ∧ R a s s'

variable {R} {L : l → Prop} {s s' s'' : σ}

theorem StepsIn.refl (s : σ) : StepsIn R L s s := Relation.ReflTransGen.refl

theorem StepsIn.single {a : l} (ha : L a) (h : R a s s') : StepsIn R L s s' :=
  Relation.ReflTransGen.single ⟨a, ha, h⟩

theorem StepsIn.trans (h₁ : StepsIn R L s s') (h₂ : StepsIn R L s' s'') : StepsIn R L s s'' :=
  Relation.ReflTransGen.trans h₁ h₂

theorem StepsIn.mono {L' : l → Prop} (hL : ∀ a, L a → L' a) (h : StepsIn R L s s') :
    StepsIn R L' s s' := by
  induction h with
  | refl => exact StepsIn.refl s
  | tail _ ht ih =>
    obtain ⟨a, ha, hr⟩ := ht
    exact ih.trans (StepsIn.single (hL a ha) hr)

theorem StepsIn.invariant {P : σ → Prop} (h : StepsIn R L s s')
    (hstep : ∀ a t t', L a → R a t t' → P t → P t') (hs : P s) : P s' := by
  induction h with
  | refl => exact hs
  | tail _ ht ih =>
    obtain ⟨a, ha, hr⟩ := ht
    exact hstep a _ _ ha hr ih

end

end Octos
