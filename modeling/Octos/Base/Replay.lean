import Mathlib.Data.List.Basic
import Mathlib.Data.List.Induction
import Mathlib.Data.List.Pairwise
import Mathlib.Order.Lattice

/-!
# Replaying a numbered log

The entries of a log carry strictly increasing numbers, and the state is the fold of the log. A
snapshot is the fold of a prefix together with its highest number; a tail of the log is replayed
over it by leaving out the entries up to that number. Where the tail begins inside the prefix,
nothing is lost and nothing is applied twice (`Increasing.replay`).
-/

namespace Octos

open List

variable {ρ σ : Type} (seq : ρ → ℕ)

def highest (log : List ρ) : ℕ := log.foldl (fun q r => max q (seq r)) 0

/-- The numbers of the log are positive and strictly increase. -/
structure Increasing (log : List ρ) : Prop where
  pairwise : log.Pairwise fun r r' => seq r < seq r'
  pos : ∀ r ∈ log, 0 < seq r

variable {seq}

@[simp] theorem highest_nil : highest seq [] = 0 := rfl

theorem highest_snoc (log : List ρ) (r : ρ) :
    highest seq (log ++ [r]) = max (highest seq log) (seq r) := by
  simp [highest]

theorem highest_append (log log' : List ρ) :
    highest seq (log ++ log') = max (highest seq log) (highest seq log') := by
  induction log' using List.reverseRecOn with
  | nil => simp
  | append_singleton log' r ih => rw [← append_assoc, highest_snoc, highest_snoc, ih, max_assoc]

variable {log : List ρ}

theorem le_highest {r : ρ} (h : r ∈ log) : seq r ≤ highest seq log := by
  obtain ⟨l, l', rfl⟩ := append_of_mem h
  rw [append_cons, highest_append, highest_snoc]
  exact (le_max_right ..).trans (le_max_left ..)

theorem highest_le {q : ℕ} (h : ∀ r ∈ log, seq r ≤ q) : highest seq log ≤ q := by
  induction log using List.reverseRecOn with
  | nil => exact Nat.zero_le q
  | append_singleton log r ih =>
    rw [highest_snoc]
    exact max_le (ih fun r' hr' => h r' (mem_append_left _ hr')) (h r (by simp))

namespace Increasing

theorem nil : Increasing seq [] := ⟨.nil, by simp⟩

variable {log log' : List ρ}

theorem append (h : Increasing seq log) (h' : log'.Pairwise fun r r' => seq r < seq r')
    (habove : ∀ r ∈ log', highest seq log < seq r) : Increasing seq (log ++ log') := by
  refine ⟨pairwise_append.mpr ⟨h.pairwise, h', fun r hr r' hr' => ?_⟩, fun r hr => ?_⟩
  · exact (le_highest hr).trans_lt (habove r' hr')
  · rcases mem_append.mp hr with hr | hr
    · exact h.pos r hr
    · exact (Nat.zero_le _).trans_lt (habove r hr)

variable {r : ρ}

theorem highest_lt (h : Increasing seq (log ++ log')) (hr : r ∈ log') :
    highest seq log < seq r := by
  have hpos := h.pos r (mem_append_right _ hr)
  induction log using List.reverseRecOn with
  | nil => exact hpos
  | append_singleton log r₀ ih =>
    rw [highest_snoc, Nat.max_lt]
    refine ⟨ih ?_, ?_⟩
    · refine ⟨h.pairwise.sublist ?_, fun r' hr' => h.pos r' ?_⟩
      · exact (sublist_append_left log [r₀]).append_right log'
      · rcases mem_append.mp hr' with hr' | hr' <;> simp [hr']
    · exact (pairwise_append.mp h.pairwise).2.2 r₀ (by simp) r hr

theorem highest_eq_of_getLast? (h : Increasing seq log) (hr : log.getLast? = some r) :
    highest seq log = seq r := by
  obtain ⟨init, rfl⟩ := getLast?_eq_some_iff.mp hr
  rw [highest_snoc]
  exact max_eq_right (h.highest_lt (by simp)).le

theorem highest_drop (h : Increasing seq log) {k : ℕ} (hk : k < log.length) :
    highest seq (log.drop k) = highest seq log := by
  have hlast : (log.drop k).getLast? = log.getLast? := by
    rw [getLast?_drop, if_neg (not_le.mpr hk)]
  have hdrop : Increasing seq (log.drop k) :=
    ⟨h.pairwise.sublist (drop_sublist k log), fun r hr => h.pos r (mem_of_mem_drop hr)⟩
  cases hr : log.getLast? with
  | none =>
    rw [getLast?_eq_none_iff] at hr
    rw [hr] at hk
    exact absurd hk (Nat.not_lt_zero k)
  | some r => rw [h.highest_eq_of_getLast? hr, hdrop.highest_eq_of_getLast? (hlast.trans hr)]

/-- Of a tail that begins in a prefix, the entries above the prefix are those that come after it. -/
theorem filter_highest (h : Increasing seq log) {k m : ℕ} (hkm : k ≤ m)
    (hm : m ≤ log.length) (e : ℕ) :
    ((log.take e).drop k).filter (fun r => decide (highest seq (log.take m) < seq r)) =
      (log.take e).drop m := by
  obtain ⟨d, rfl⟩ := Nat.exists_eq_add_of_le hkm
  rw [← take_append_drop d ((log.take e).drop k), filter_append, drop_drop]
  have hbefore : (((log.take e).drop k).take d).filter
      (fun r => decide (highest seq (log.take (k + d)) < seq r)) = [] := by
    refine filter_eq_nil_iff.mpr fun r hr => ?_
    -- The entries before position `k + d` are in the prefix.
    have hmem : r ∈ log.take (k + d) := by
      rw [take_drop] at hr
      have htake := mem_of_mem_drop hr
      rw [take_take, min_comm, ← take_take] at htake
      exact mem_of_mem_take htake
    simpa using le_highest hmem
  have hafter : ((log.take e).drop (k + d)).filter
      (fun r => decide (highest seq (log.take (k + d)) < seq r)) = (log.take e).drop (k + d) := by
    refine filter_eq_self.mpr fun r hr => ?_
    have hmem : r ∈ log.drop (k + d) := by
      rw [drop_take] at hr
      exact mem_of_mem_take hr
    have hlog : Increasing seq (log.take (k + d) ++ log.drop (k + d)) := by
      rwa [take_append_drop]
    simpa using hlog.highest_lt hmem
  rw [hbefore, hafter, nil_append]

end Increasing

theorem take_append_drop_take (log : List ρ) (m e : ℕ) :
    log.take m ++ (log.take e).drop m = log.take (max m e) := by
  rcases le_total e m with h | h
  · rw [max_eq_left h, drop_eq_nil_of_le (by simp [h]), append_nil]
  · rw [max_eq_right h]
    nth_rewrite 1 [show log.take m = (log.take e).take m by rw [take_take, min_eq_left h]]
    exact take_append_drop m (log.take e)

/-- **A snapshot with a tail replayed over it.** The snapshot covers the first `m` entries, the tail
those from `k` to `e`; if it begins inside what the snapshot covers, the result is the fold of the
longer of the two. -/
theorem Increasing.replay (h : Increasing seq log) (f : σ → ρ → σ) (init : σ) {k m : ℕ}
    (hkm : k ≤ m) (hm : m ≤ log.length) (e : ℕ) :
    (((log.take e).drop k).filter (fun r => decide (highest seq (log.take m) < seq r))).foldl f
      ((log.take m).foldl f init) = (log.take (max m e)).foldl f init := by
  rw [h.filter_highest hkm hm, ← foldl_append, take_append_drop_take]

end Octos
