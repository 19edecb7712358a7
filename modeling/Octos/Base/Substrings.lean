import Mathlib.Data.List.Infix

/-!
# Occurrences of a pattern in a list

A scan from the left that goes on behind each occurrence it has found (`matchIndices`) reports
occurrences that do not overlap. It reports at least two exactly if two occurrences are apart, so an
occurrence that overlaps the one before is not seen.
-/

namespace Octos

open List

variable {α : Type} [DecidableEq α] {pat l : List α} {skip offset i j : ℕ}

def OccursAt (pat l : List α) (i : ℕ) : Prop := pat <+: l.drop i

/-- A pattern occurs at two positions with no overlap. -/
def Apart (pat l : List α) : Prop :=
  ∃ i j, OccursAt pat l i ∧ OccursAt pat l j ∧ i + pat.length ≤ j

def Recurs (pat l : List α) : Prop := ∃ i j, OccursAt pat l i ∧ OccursAt pat l j ∧ i ≠ j

/-- The scan from a position on, with some elements that belong to the last occurrence. -/
def scanFrom (pat : List α) (skip offset : ℕ) : List α → List ℕ
  | [] => []
  | c :: cs =>
    match skip with
    | skip + 1 => scanFrom pat skip (offset + 1) cs
    | 0 =>
      if pat.isPrefixOf (c :: cs) then offset :: scanFrom pat (pat.length - 1) (offset + 1) cs
      else scanFrom pat 0 (offset + 1) cs

/-- The occurrences of a pattern from the left, each behind the end of the one before. -/
def matchIndices (pat l : List α) : List ℕ := scanFrom pat 0 0 l

omit [DecidableEq α] in
theorem occursAt_cons_succ {c : α} : OccursAt pat (c :: l) (i + 1) ↔ OccursAt pat l i := Iff.rfl

omit [DecidableEq α] in
theorem not_occursAt_nil (hpat : pat ≠ []) : ¬ OccursAt pat ([] : List α) i := by
  intro h
  rw [OccursAt, drop_nil, prefix_nil] at h
  exact hpat h

omit [DecidableEq α] in
theorem OccursAt.add_length_le (hpat : pat ≠ []) (h : OccursAt pat l i) :
    i + pat.length ≤ l.length := by
  have hlen := List.IsPrefix.length_le h
  have hpos := length_pos_iff.mpr hpat
  rw [length_drop] at hlen
  omega

theorem occursAt_of_mem_scanFrom (h : i ∈ scanFrom pat skip offset l) :
    offset + skip ≤ i ∧ OccursAt pat l (i - offset) := by
  induction l generalizing skip offset with
  | nil => exact absurd h not_mem_nil
  | cons c cs ih =>
    -- An occurrence in the rest is one element further in the list.
    have hshift : ∀ {k}, offset + 1 + k ≤ i ∧ OccursAt pat cs (i - (offset + 1)) →
        offset + k < i ∧ OccursAt pat (c :: cs) (i - offset) := by
      intro k hk
      obtain ⟨d, rfl⟩ := Nat.exists_eq_add_of_le (Nat.le_of_add_right_le hk.1)
      refine ⟨by omega, ?_⟩
      have hoff : offset + 1 + d - offset = d + 1 := by omega
      rw [hoff, occursAt_cons_succ]
      simpa using hk.2
    cases skip with
    | succ skip => exact hshift (ih h)
    | zero =>
      rw [scanFrom] at h
      split_ifs at h with hpre
      · rcases mem_cons.mp h with rfl | h
        · refine ⟨Nat.le_refl _, ?_⟩
          rw [Nat.sub_self]
          exact List.isPrefixOf_iff_prefix.mp hpre
        · exact (hshift (ih h)).imp_left fun hlt => by omega
      · exact (hshift (ih h)).imp_left fun hlt => by omega

theorem pairwise_scanFrom :
    (scanFrom pat skip offset l).Pairwise fun i j => i + pat.length ≤ j := by
  induction l generalizing skip offset with
  | nil => exact .nil
  | cons c cs ih =>
    cases skip with
    | succ skip => exact ih
    | zero =>
      rw [scanFrom]
      split_ifs
      · refine pairwise_cons.mpr ⟨?_, ih⟩
        intro j hj
        have := (occursAt_of_mem_scanFrom hj).1
        omega
      · exact ih

theorem scanFrom_ne_nil (hpat : pat ≠ []) (h : OccursAt pat l i) (hi : skip ≤ i) :
    scanFrom pat skip offset l ≠ [] := by
  induction l generalizing skip offset i with
  | nil => exact absurd h (not_occursAt_nil hpat)
  | cons c cs ih =>
    cases skip with
    | succ skip =>
      cases i with
      | zero => omega
      | succ i => exact ih h (by omega)
    | zero =>
      rw [scanFrom]
      split_ifs with hpre
      · exact cons_ne_nil _ _
      · cases i with
        | zero => exact absurd (List.isPrefixOf_iff_prefix.mpr h) hpre
        | succ i => exact ih h (Nat.zero_le i)

theorem two_le_length_scanFrom (hpat : pat ≠ []) (hi : OccursAt pat l i) (hj : OccursAt pat l j)
    (hskip : skip ≤ i) (hij : i + pat.length ≤ j) : 2 ≤ (scanFrom pat skip offset l).length := by
  have hlen := length_pos_iff.mpr hpat
  induction l generalizing skip offset i j with
  | nil => exact absurd hi (not_occursAt_nil hpat)
  | cons c cs ih =>
    obtain ⟨j, rfl⟩ : ∃ j', j = j' + 1 := ⟨j - 1, by omega⟩
    cases skip with
    | succ skip =>
      cases i with
      | zero => omega
      | succ i => exact ih hi hj (by omega) (by omega)
    | zero =>
      rw [scanFrom]
      split_ifs with hpre
      · -- The second one lies behind the occurrence found here.
        have hne := @scanFrom_ne_nil _ _ pat cs (pat.length - 1) (offset + 1) j hpat hj (by omega)
        have := length_pos_iff.mpr hne
        rw [length_cons]
        omega
      · cases i with
        | zero => exact absurd (List.isPrefixOf_iff_prefix.mpr hi) hpre
        | succ i => exact ih hi hj (Nat.zero_le i) (by omega)

theorem occursAt_of_mem_matchIndices (h : i ∈ matchIndices pat l) : OccursAt pat l i := by
  have h' := (occursAt_of_mem_scanFrom h).2
  rwa [Nat.sub_zero] at h'

theorem matchIndices_eq_nil_iff (hpat : pat ≠ []) :
    matchIndices pat l = [] ↔ ∀ i, ¬ OccursAt pat l i := by
  constructor
  · intro hnil i hi
    exact scanFrom_ne_nil hpat hi (Nat.zero_le i) hnil
  · intro hnone
    refine eq_nil_iff_forall_not_mem.mpr ?_
    intro i hi
    exact hnone i (occursAt_of_mem_matchIndices hi)

/-- **The scan reports two occurrences iff two are apart.** -/
theorem two_le_length_matchIndices_iff (hpat : pat ≠ []) :
    2 ≤ (matchIndices pat l).length ↔ Apart pat l := by
  constructor
  · intro hlen
    have hpairs : (matchIndices pat l).Pairwise fun i j => i + pat.length ≤ j :=
      pairwise_scanFrom
    obtain ⟨i, j, rest, hcons⟩ : ∃ i j rest, matchIndices pat l = i :: j :: rest := by
      cases hm : matchIndices pat l with
      | nil =>
        rw [hm] at hlen
        simp at hlen
      | cons i rest =>
        cases rest with
        | nil =>
          rw [hm] at hlen
          simp at hlen
        | cons j rest => exact ⟨i, j, rest, rfl⟩
    rw [hcons] at hpairs
    refine ⟨i, j, occursAt_of_mem_matchIndices ?_, occursAt_of_mem_matchIndices ?_, ?_⟩
    · rw [hcons]
      exact mem_cons_self
    · rw [hcons]
      exact mem_cons_of_mem _ mem_cons_self
    · exact (pairwise_cons.mp hpairs).1 j mem_cons_self
  · rintro ⟨i, j, hi, hj, hij⟩
    exact two_le_length_scanFrom hpat hi hj (Nat.zero_le i) hij

/-- A pattern that recurs, but not at two positions that are apart, is reported once. -/
theorem length_matchIndices_eq_one (hpat : pat ≠ []) (hrec : Recurs pat l)
    (hapart : ¬ Apart pat l) :
    (matchIndices pat l).length = 1 := by
  obtain ⟨i, _, hi, _, _⟩ := hrec
  have hne : matchIndices pat l ≠ [] := fun hnil => (matchIndices_eq_nil_iff hpat).mp hnil i hi
  have hpos := length_pos_iff.mpr hne
  have htwo := mt (two_le_length_matchIndices_iff hpat).mp hapart
  omega

theorem occurs_once (hpat : pat ≠ []) (hlen : (matchIndices pat l).length = 1)
    (hseen : Recurs pat l → Apart pat l) :
    ∃ i, OccursAt pat l i ∧ ∀ j, OccursAt pat l j → j = i := by
  obtain ⟨i, hi⟩ := length_eq_one_iff.mp hlen
  have hocc : OccursAt pat l i := by
    refine occursAt_of_mem_matchIndices ?_
    rw [hi]
    exact mem_cons_self
  refine ⟨i, hocc, ?_⟩
  intro j hj
  by_contra hne
  have htwo := (two_le_length_matchIndices_iff hpat).mpr (hseen ⟨j, i, hj, hocc, hne⟩)
  omega

end Octos
