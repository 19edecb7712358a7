import Octos.Base.Runs
import Mathlib.Algebra.Order.BigOperators.Group.List
import Mathlib.Algebra.Order.Group.Nat
import Mathlib.Algebra.Ring.Nat

/-!
# Threads over shared state

Calls run at the same time on state that is behind locks. A call is a sequence of critical sections;
what is left of it is its agenda. A section changes the shared state and puts the sections that
follow from what it saw in front of the agenda, or it panics and the agenda is gone. A scheduler
starts calls and picks the thread whose next section runs, so a run is any interleaving of sections.
-/

namespace Octos

open List

variable {σ α γ ι : Type}

/-- The shared state and, for every thread, the sections it has still to run. -/
structure Pool (σ α : Type) where
  shared : σ
  threads : List (List α)

/-- What the scheduler does: it starts a call, or runs the next section of a thread. -/
inductive Move (γ ι : Type)
  | spawn (call : γ)
  | run (thread : ℕ) (input : ι)

/-- A call that runs its next sections without interruption. -/
def Move.alone (thread : ℕ) (call : γ) (input : ι) (n : ℕ) : List (Move γ ι) :=
  .spawn call :: List.replicate n (.run thread input)

/-- The agenda after a section. -/
def resume (rest : List α) (out : Option (List α)) : List α := out.elim [] (· ++ rest)

theorem mem_resume {rest : List α} {out : Option (List α)} {a : α} (h : a ∈ resume rest out) :
    a ∈ out.getD [] ∨ a ∈ rest := by
  cases out with
  | none => cases h
  | some new => exact mem_append.mp h

namespace Pool

/-- All sections that are still to run. -/
def acts (p : Pool σ α) : List α := p.threads.flatten

def next (p : Pool σ α) (i : ℕ) : Option α := p.threads[i]?.bind List.head?

/-- The sum of a measure of the sections that are still to run. -/
def total (p : Pool σ α) (f : α → ℕ) : ℕ := (p.acts.map f).sum

section

variable (start : γ → List α) (exec : ι → σ → α → σ × Option (List α))

/-- One move of the scheduler; running a thread that has nothing left changes nothing. -/
def step (p : Pool σ α) : Move γ ι → Pool σ α
  | .spawn call => ⟨p.shared, p.threads ++ [start call]⟩
  | .run i input =>
    match p.threads[i]? with
    | some (a :: rest) =>
      ⟨(exec input p.shared a).1, p.threads.set i (resume rest (exec input p.shared a).2)⟩
    | some [] => p
    | none => p

variable {start exec} {p : Pool σ α} {i : ℕ} {input : ι} {a : α}

theorem step_run_none (h : p.next i = none) : p.step start exec (.run i input) = p := by
  rw [step]
  split
  · next a rest hi =>
    rw [next, hi] at h
    cases h
  · rfl
  · rfl

theorem step_run (start : γ → List α) (exec : ι → σ → α → σ × Option (List α)) (input : ι)
    (h : p.next i = some a) : ∃ before rest after,
      p.threads = before ++ (a :: rest) :: after ∧
      p.step start exec (.run i input) =
        ⟨(exec input p.shared a).1, before ++ resume rest (exec input p.shared a).2 :: after⟩ := by
  obtain ⟨agenda, hi, hhead⟩ := Option.bind_eq_some_iff.mp h
  obtain ⟨rest, rfl⟩ : ∃ rest, agenda = a :: rest := by
    cases agenda with
    | nil => cases hhead
    | cons b rest =>
      obtain rfl := Option.some.inj hhead
      exact ⟨rest, rfl⟩
  obtain ⟨hlt, hget⟩ := List.getElem?_eq_some_iff.mp hi
  refine ⟨p.threads.take i, rest, p.threads.drop (i + 1), ?_, ?_⟩
  · rw [← hget, getElem_cons_drop, take_append_drop]
  · rw [step, hi]
    dsimp only
    rw [set_eq_take_append_cons_drop, if_pos hlt]

theorem shared_run (h : p.next i = some a) :
    (p.step start exec (.run i input)).shared = (exec input p.shared a).1 := by
  obtain ⟨before, rest, after, -, hstep⟩ := step_run start exec input h
  rw [hstep]

theorem mem_acts_of_next (h : p.next i = some a) : a ∈ p.acts := by
  obtain ⟨agenda, hi, hhead⟩ := Option.bind_eq_some_iff.mp h
  exact mem_flatten_of_mem (mem_of_getElem? hi) (mem_of_head? hhead)

variable {b : α}

theorem mem_acts_spawn {call : γ} :
    b ∈ (p.step start exec (.spawn call)).acts ↔ b ∈ p.acts ∨ b ∈ start call := by
  simp [step, acts]

/-- Beside the section that runs are the others: what is still to run after it is one of them, or is
put there by it. -/
theorem exists_others (start : γ → List α) (exec : ι → σ → α → σ × Option (List α)) (input : ι)
    (h : p.next i = some a) : ∃ others : List α,
      (∀ f : α → ℕ, p.total f = f a + (others.map f).sum) ∧ (∀ b ∈ others, b ∈ p.acts) ∧
      ∀ b ∈ (p.step start exec (.run i input)).acts,
        b ∈ others ∨ b ∈ (exec input p.shared a).2.getD [] := by
  obtain ⟨before, rest, after, hthreads, hstep⟩ := step_run start exec input h
  refine ⟨before.flatten ++ (rest ++ after.flatten), fun f => ?_, fun b hb => ?_, fun b hb => ?_⟩
  · rw [total, acts, hthreads]
    simp
    omega
  · rw [acts, hthreads, flatten_append, flatten_cons]
    simp only [mem_append, mem_cons] at hb ⊢
    tauto
  · rw [hstep, acts, flatten_append, flatten_cons, mem_append, mem_append] at hb
    simp only [mem_append]
    rcases hb with hb | hb | hb
    · exact .inl (.inl hb)
    · exact (mem_resume hb).symm.imp_left fun hrest => .inr (.inl hrest)
    · exact .inl (.inr (.inr hb))

/-- What is still to run after a section was still to run before it, or is put there by it. -/
theorem mem_acts_run (h : p.next i = some a) (hb : b ∈ (p.step start exec (.run i input)).acts) :
    b ∈ p.acts ∨ b ∈ (exec input p.shared a).2.getD [] := by
  obtain ⟨others, -, hacts, hothers⟩ := exists_others start exec input h
  exact (hothers b hb).imp_left (hacts b)

/-! ## Measures -/

variable (f : α → ℕ)

theorem total_spawn (call : γ) :
    (p.step start exec (.spawn call)).total f = p.total f + ((start call).map f).sum := by
  simp [step, total, acts]

theorem total_run_aux (h : p.next i = some a) : ∃ others rest : ℕ,
    p.total f = others + f a + rest ∧
    (p.step start exec (.run i input)).total f =
      others + ((exec input p.shared a).2.elim 0 fun new => (new.map f).sum + rest) := by
  obtain ⟨before, rest, after, hthreads, hstep⟩ := step_run start exec input h
  refine ⟨(before.flatten.map f).sum + (after.flatten.map f).sum, (rest.map f).sum, ?_, ?_⟩
  · rw [total, acts, hthreads]
    simp
    omega
  · rw [hstep, total, acts]
    cases (exec input p.shared a).2 with
    | none => simp [resume]
    | some new =>
      simp [resume]
      omega

/-- A section that does not panic trades its measure for that of the sections it puts on the
agenda. -/
theorem total_run_some (h : p.next i = some a) {new : List α}
    (hnew : (exec input p.shared a).2 = some new) :
    (p.step start exec (.run i input)).total f + f a = p.total f + (new.map f).sum := by
  obtain ⟨others, rest, hp, hstep⟩ := total_run_aux f h
  rw [hstep, hp, hnew]
  simp only [Option.elim_some]
  omega

theorem total_run (h : p.next i = some a) :
    (p.step start exec (.run i input)).total f + f a ≤
      p.total f + (((exec input p.shared a).2.getD []).map f).sum := by
  obtain ⟨others, rest, hp, hstep⟩ := total_run_aux f h
  rw [hstep, hp]
  cases (exec input p.shared a).2 with
  | none =>
    simp only [Option.elim_none, Option.getD_none, map_nil, sum_nil]
    omega
  | some new =>
    simp only [Option.elim_some, Option.getD_some]
    omega

/-- **What starting a call and running a section keep holds along every run.** -/
theorem invariant {ok : Pool σ α → Move γ ι → Prop} {P : Pool σ α → Prop}
    (hspawn : ∀ p call, P p → ok p (.spawn call) → P (p.step start exec (.spawn call)))
    (hrun : ∀ p i input a, P p → p.next i = some a → ok p (.run i input) →
      P (p.step start exec (.run i input)))
    {moves : List (Move γ ι)} (h : Guarded (step start exec) ok p moves) (hp : P p) :
    P (runSteps (step start exec) p moves) := by
  refine h.invariant (fun q move hq hok => ?_) hp
  cases move with
  | spawn call => exact hspawn q call hq hok
  | run i input =>
    cases hnext : q.next i with
    | none =>
      rw [step_run_none hnext]
      exact hq
    | some a => exact hrun q i input a hq hnext hok

end

end Pool

/-! ## A call on its own -/

section

variable (exec : ι → σ → α → σ × Option (List α))

/-- The next section of a call that runs on its own. -/
def soloStep (s : σ × List α) (input : ι) : σ × List α :=
  match s.2 with
  | [] => s
  | a :: rest => ((exec input s.1 a).1, resume rest (exec input s.1 a).2)

theorem soloStep_cons (s : σ) (a : α) (rest : List α) (input : ι) :
    soloStep exec (s, a :: rest) input = ((exec input s a).1, resume rest (exec input s a).2) := rfl

variable {exec} {rank : α → ℕ}

section

variable (hrank : ∀ input s a, ∀ b ∈ (exec input s a).2.getD [], rank b < rank a)
include hrank

theorem solo_returns (r : ℕ)
    (inputs : ℕ → ι) (s : σ) (agenda rest : List α) (hagenda : ∀ a ∈ agenda, rank a < r) :
    ∃ n s' left, runSteps (soloStep exec) (s, agenda ++ rest) ((List.range n).map inputs) =
      (s', left) ∧
      (left = rest ∨ left = []) := by
  induction r generalizing inputs s agenda rest with
  | zero =>
    obtain rfl : agenda = [] := eq_nil_iff_forall_not_mem.mpr fun a ha =>
      Nat.not_lt_zero _ (hagenda a ha)
    exact ⟨0, s, rest, rfl, .inl rfl⟩
  | succ r ihr =>
    -- within a rank, one section of the agenda after the other
    induction agenda generalizing inputs s with
    | nil => exact ⟨0, s, rest, rfl, .inl rfl⟩
    | cons a agenda ih =>
      cases hout : (exec (inputs 0) s a).2 with
      | none =>
        refine ⟨1, (exec (inputs 0) s a).1, [], ?_, .inr rfl⟩
        simp [runSteps, soloStep, hout, resume]
      | some new =>
        have hnew : ∀ b ∈ new, rank b < r := by
          intro b hb
          have hlt := hrank (inputs 0) s a b (by rw [hout]; exact hb)
          have ha := hagenda a mem_cons_self
          omega
        obtain ⟨n, s₁, left, hn, hleft⟩ :=
          ihr (fun k => inputs (1 + k)) (exec (inputs 0) s a).1 new (agenda ++ rest) hnew
        have hone :
            runSteps (soloStep exec) (s, a :: agenda ++ rest) ((List.range (1 + n)).map inputs) =
            (s₁, left) := by
          rw [range_add, map_append, runSteps_append, map_map, ← hn]
          simp [runSteps, soloStep, hout, resume, Function.comp_def]
        rcases hleft with rfl | rfl
        · obtain ⟨m, s₂, left, hm, hleft⟩ := ih (fun k => inputs (1 + n + k)) s₁
            fun b hb => hagenda b (mem_cons_of_mem _ hb)
          refine ⟨1 + n + m, s₂, left, ?_, hleft⟩
          rw [range_add, map_append, runSteps_append, hone, map_map]
          exact hm
        · exact ⟨1 + n, s₁, [], hone, .inr rfl⟩

/-- **A call whose sections only put sections of lower rank on the agenda returns.** -/
theorem solo_finishes (inputs : ℕ → ι) (s : σ) (agenda : List α) :
    ∃ n, (runSteps (soloStep exec) (s, agenda) ((List.range n).map inputs)).2 = [] := by
  obtain ⟨r, hr⟩ : ∃ r, ∀ a ∈ agenda, rank a < r :=
    ⟨(agenda.map rank).sum + 1, fun a ha => Nat.lt_succ_of_le (le_sum_of_mem (mem_map_of_mem ha))⟩
  obtain ⟨n, s', left, hn, hleft⟩ := solo_returns hrank r inputs s agenda [] hr
  rw [append_nil] at hn
  refine ⟨n, ?_⟩
  rw [hn]
  rcases hleft with rfl | rfl <;> rfl

end

end

end Octos
