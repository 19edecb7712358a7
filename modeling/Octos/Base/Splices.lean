import Mathlib.Data.List.Basic
import Mathlib.Data.List.TakeDrop

/-!
# Replacing blocks of a list

Several disjoint blocks of a list are replaced at once (`replaceFrom`). An editor reaches the same
list with one splice after another: from the top, over the part that no block has touched yet, or
from the bottom, where the positions of the blocks above stay valid.
-/

namespace Octos

open List

variable {α : Type}

/-- The list with `span` elements from `start` on replaced. -/
def splice (xs : List α) (start span : ℕ) (text : List α) : List α :=
  xs.take start ++ text ++ xs.drop (start + span)

/-- A block of a list and what takes its place. -/
structure Replacement (α : Type) where
  start : ℕ
  span : ℕ
  text : List α

def Replacement.stop (r : Replacement α) : ℕ := r.start + r.span

/-- The blocks lie between two positions and each starts where the one before has ended. -/
def InOrder (lo hi : ℕ) : List (Replacement α) → Prop
  | [] => lo ≤ hi
  | r :: rs => lo ≤ r.start ∧ InOrder r.stop hi rs

/-- The elements from `k` on, with the blocks replaced. -/
def replaceFrom (xs : List α) (k : ℕ) : List (Replacement α) → List α
  | [] => xs.drop k
  | r :: rs => (xs.drop k).take (r.start - k) ++ r.text ++ replaceFrom xs r.stop rs

variable {xs : List α} {lo lo' hi k : ℕ} {rs : List (Replacement α)}

theorem InOrder.le (h : InOrder lo hi rs) : lo ≤ hi := by
  induction rs generalizing lo with
  | nil => exact h
  | cons r rs ih =>
    have hstop : r.start ≤ r.stop := Nat.le_add_right ..
    exact Nat.le_trans h.1 (Nat.le_trans hstop (ih h.2))

theorem InOrder.mono (hle : lo' ≤ lo) (h : InOrder lo hi rs) : InOrder lo' hi rs := by
  cases rs with
  | nil => exact Nat.le_trans hle h
  | cons r rs => exact ⟨Nat.le_trans hle h.1, h.2⟩

theorem inOrder_concat {r : Replacement α} :
    InOrder lo hi (rs ++ [r]) ↔ InOrder lo r.start rs ∧ r.stop ≤ hi := by
  induction rs generalizing lo with
  | nil => exact Iff.rfl
  | cons r' rs ih => rw [cons_append, InOrder, InOrder, ih, and_assoc]

theorem splice_append_drop (before : List α) {p : ℕ} (hp : k ≤ p) (span : ℕ) (text : List α) :
    splice (before ++ xs.drop k) (before.length + (p - k)) span text =
      (before ++ (xs.drop k).take (p - k) ++ text) ++ xs.drop (p + span) := by
  have hdrop : (before ++ xs.drop k).drop (before.length + (p - k) + span) =
      xs.drop (p + span) := by
    rw [Nat.add_assoc, drop_append, drop_drop]
    rw [drop_eq_nil_of_le (by omega), nil_append]
    congr 1
    omega
  rw [splice, take_length_add_append, hdrop, append_assoc, append_assoc]

theorem replaceFrom_eq_append (hk : lo ≤ k) (h : InOrder k hi rs) :
    replaceFrom xs lo rs = (xs.drop lo).take (k - lo) ++ replaceFrom xs k rs := by
  have hdrop : (xs.drop lo).drop (k - lo) = xs.drop k := by
    rw [drop_drop]
    congr 1
    omega
  cases rs with
  | nil => rw [replaceFrom, replaceFrom, ← hdrop, take_append_drop]
  | cons r rs =>
    have hstart : k ≤ r.start := h.1
    -- The elements before the block come in two parts, split at `k`.
    have hsplit : (xs.drop lo).take (r.start - lo) =
        (xs.drop lo).take (k - lo) ++ (xs.drop k).take (r.start - k) := by
      have hlen : r.start - lo = (k - lo) + (r.start - k) := by omega
      rw [hlen, take_add, hdrop]
    rw [replaceFrom, replaceFrom, hsplit]
    simp

theorem take_replaceFrom (h : InOrder k xs.length rs) :
    (replaceFrom xs 0 rs).take k = xs.take k := by
  rw [replaceFrom_eq_append (Nat.zero_le k) h, drop_zero, Nat.sub_zero]
  exact take_left' (length_take_of_le h.le)

theorem splice_replaceFrom (r : Replacement α) (h : InOrder r.stop xs.length rs) :
    splice (replaceFrom xs 0 rs) r.start r.span r.text = replaceFrom xs 0 (r :: rs) := by
  have hstop : r.start ≤ r.stop := Nat.le_add_right ..
  have htake : (replaceFrom xs 0 rs).take r.start = xs.take r.start := by
    have h' := congrArg (List.take r.start) (take_replaceFrom h)
    rwa [take_take, take_take, Nat.min_eq_left hstop] at h'
  have hdrop : (replaceFrom xs 0 rs).drop r.stop = replaceFrom xs r.stop rs := by
    rw [replaceFrom_eq_append (Nat.zero_le _) h, drop_zero, Nat.sub_zero]
    exact drop_left' (length_take_of_le h.le)
  rw [splice, htake, replaceFrom, drop_zero, Nat.sub_zero]
  rw [show r.start + r.span = r.stop from rfl, hdrop]

end Octos
