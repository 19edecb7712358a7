import Mathlib.Data.List.Sort
import Mathlib.Algebra.Order.BigOperators.Group.List
import Mathlib.Algebra.Order.Group.Nat
import Mathlib.Algebra.Ring.Nat

/-!
# Ordered tables

A table holds one row per key and is read back in key order. It is the key-sorted list of its
entries, and carries the proof that the keys strictly increase, so that no table with a
duplicate key can be built. A table is determined by its lookups (`Table.ext_get`), and sums
over the rows change by exactly the row an insertion replaces (`Table.sum_insert`).
-/

namespace Octos

open List

universe u v w

/-- A table: one row per key, the entries in strictly increasing key order. -/
structure Table (κ : Type u) [LinearOrder κ] (α : Type v) where
  entries : List (κ × α)
  sorted : entries.Pairwise fun p q => p.1 < q.1

namespace Table

variable {κ : Type u} [LinearOrder κ] {α : Type v} {t : Table κ α} {k : κ}

def empty : Table κ α := ⟨[], List.Pairwise.nil⟩

/-- Insertion into a key-sorted list, replacing the row of an equal key. -/
def insertEntry (k : κ) (v : α) : List (κ × α) → List (κ × α)
  | [] => [(k, v)]
  | (k', v') :: l =>
    if k < k' then (k, v) :: (k', v') :: l
    else if k = k' then (k, v) :: l
    else (k', v') :: insertEntry k v l

variable {v : α} {l : List (κ × α)}

theorem mem_insertEntry {p : κ × α} (h : p ∈ insertEntry k v l) : p = (k, v) ∨ p ∈ l := by
  induction l with
  | nil => exact .inl (mem_singleton.mp h)
  | cons q l ih =>
    rw [insertEntry] at h
    split_ifs at h with h₁ h₂
    · exact mem_cons.mp h
    · exact (mem_cons.mp h).imp_right (mem_cons_of_mem _)
    · rcases mem_cons.mp h with h | h
      · exact .inr (h ▸ mem_cons_self)
      · exact (ih h).imp_right (mem_cons_of_mem _)

theorem insertEntry_sorted (k : κ) (v : α) (h : l.Pairwise fun p q => p.1 < q.1) :
    (insertEntry k v l).Pairwise fun p q => p.1 < q.1 := by
  induction l with
  | nil => exact pairwise_singleton ..
  | cons q l ih =>
    obtain ⟨hq, hl⟩ := pairwise_cons.mp h
    rw [insertEntry]
    split_ifs with h₁ h₂
    · refine pairwise_cons.mpr ⟨fun p hp => ?_, h⟩
      rcases mem_cons.mp hp with rfl | hp
      · exact h₁
      · exact h₁.trans (hq p hp)
    · subst h₂
      exact pairwise_cons.mpr ⟨hq, hl⟩
    · refine pairwise_cons.mpr ⟨fun p hp => ?_, ih hl⟩
      rcases mem_insertEntry hp with rfl | hp
      · exact lt_of_le_of_ne (not_lt.mp h₁) (Ne.symm h₂)
      · exact hq p hp

/-- The table with row `v` at key `k`, replacing the row there if there is one. -/
def insert (t : Table κ α) (k : κ) (v : α) : Table κ α :=
  ⟨insertEntry k v t.entries, insertEntry_sorted k v t.sorted⟩

def lookupEntry (k : κ) : List (κ × α) → Option α
  | [] => none
  | (k', v) :: l => if k' = k then some v else lookupEntry k l

def get (t : Table κ α) (k : κ) : Option α := lookupEntry k t.entries

def last (t : Table κ α) : Option (κ × α) := t.entries.getLast?

def values (t : Table κ α) : List α := t.entries.map Prod.snd

def sum (t : Table κ α) (g : α → ℕ) : ℕ := (t.values.map g).sum

instance [DecidableEq α] : DecidableEq (Table κ α) := fun t t' =>
  decidable_of_iff (t.entries = t'.entries) (by cases t; cases t'; simp)

/-! ## Lookups -/

@[simp] theorem get_empty (k : κ) : (empty : Table κ α).get k = none := rfl

theorem lookupEntry_insertEntry (k k' : κ) (v : α) (l : List (κ × α)) :
    lookupEntry k' (insertEntry k v l) = if k' = k then some v else lookupEntry k' l := by
  induction l with
  | nil => simp [insertEntry, lookupEntry, eq_comm]
  | cons q l ih =>
    rw [insertEntry]
    split_ifs with h₁ h₂ h₃ h₄ h₅
    · simp [lookupEntry, h₂]
    · simp [lookupEntry, Ne.symm h₂]
    · simp [lookupEntry, h₄]
    · subst h₃
      simp [lookupEntry, Ne.symm h₄]
    · rw [lookupEntry, if_neg (fun h => h₃ (h₅ ▸ h.symm)), ih, if_pos h₅]
    · rw [lookupEntry, lookupEntry, ih, if_neg h₅]

variable (t)

@[simp] theorem get_insert (k k' : κ) (v : α) :
    (t.insert k v).get k' = if k' = k then some v else t.get k' :=
  lookupEntry_insertEntry k k' v t.entries

theorem get_insert_self (k : κ) (v : α) : (t.insert k v).get k = some v := by
  simp

theorem get_insert_of_ne {k' : κ} (v : α) (h : k' ≠ k) :
    (t.insert k v).get k' = t.get k' := by
  simp [h]

variable {t}

/-- What holds of every old row and of the new one holds of every row after an insertion. -/
theorem forall_insert {P : κ → α → Prop} (hold : ∀ k' v', k' ≠ k → t.get k' = some v' → P k' v')
    (hnew : P k v) (k' : κ) (v' : α) (h : (t.insert k v).get k' = some v') : P k' v' := by
  rw [get_insert] at h
  split_ifs at h with hk
  · cases h
    exact hk ▸ hnew
  · exact hold k' v' hk h

/-- Writing a value without the property over one without it keeps the values with it. -/
theorem get_insert_iff {k₀ : κ} {v₀ : α} {P : α → Prop} (hnew : ¬ P v₀)
    (hold : ∀ v, t.get k₀ = some v → ¬ P v) (k : κ) (v : α) (hv : P v) :
    (t.insert k₀ v₀).get k = some v ↔ t.get k = some v := by
  by_cases hk : k = k₀
  · subst hk
    rw [get_insert_self]
    constructor
    · rintro ⟨rfl⟩
      exact absurd hv hnew
    · intro h
      exact absurd hv (hold v h)
  · rw [get_insert_of_ne _ _ hk]

theorem exists_get_insert {k' : κ} (v : α) (h : ∃ w, t.get k' = some w) :
    ∃ w, (t.insert k v).get k' = some w := by
  rw [get_insert]
  split_ifs
  · exact ⟨v, rfl⟩
  · exact h

theorem mem_lookupEntry (hl : l.Pairwise fun p q => p.1 < q.1) :
    (k, v) ∈ l ↔ lookupEntry k l = some v := by
  induction l with
  | nil => simp [lookupEntry]
  | cons q l ih =>
    obtain ⟨hq, hl⟩ := pairwise_cons.mp hl
    rw [mem_cons, lookupEntry]
    split_ifs with h
    · subst h
      constructor
      · rintro (h | h)
        · rw [(Prod.mk.inj h).2]
        · exact absurd (hq _ h) (lt_irrefl _)
      · rintro ⟨rfl⟩
        exact .inl rfl
    · rw [← ih hl]
      exact or_iff_right fun e => h (Prod.mk.inj e).1.symm

theorem mem_entries : (k, v) ∈ t.entries ↔ t.get k = some v :=
  mem_lookupEntry t.sorted

theorem mem_values : v ∈ t.values ↔ ∃ k, t.get k = some v := by
  simp [values, ← mem_entries]

theorem filterMap_entries {g : κ × α → Option α} {P : α → Bool}
    (h : ∀ k v, t.get k = some v → g (k, v) = if P v then some v else none) :
    t.entries.filterMap g = t.values.filter P := by
  rw [values, ← filterMap_eq_filter, filterMap_map]
  refine filterMap_congr fun p hp => ?_
  rw [h p.1 p.2 (mem_entries.mp hp)]
  simp [Option.guard]

theorem values_pairwise {key : α → κ} (h : ∀ k v, t.get k = some v → key v = k) :
    t.values.Pairwise fun v w => key v < key w := by
  refine pairwise_map.mpr (t.sorted.imp_of_mem fun {p q} hp hq hpq => ?_)
  rw [h p.1 p.2 (mem_entries.mp hp), h q.1 q.2 (mem_entries.mp hq)]
  exact hpq

theorem entries_nodup (t : Table κ α) : t.entries.Nodup :=
  t.sorted.imp fun hpq e => hpq.ne (congrArg Prod.fst e)

theorem ext_get {t' : Table κ α} (h : ∀ k, t.get k = t'.get k) : t = t' := by
  have hp : t.entries.Perm t'.entries := by
    refine (perm_ext_iff_of_nodup t.entries_nodup t'.entries_nodup).mpr fun p => ?_
    rw [mem_entries, mem_entries, h]
  have he : t.entries = t'.entries :=
    hp.eq_of_pairwise (fun p q _ _ hpq hqp => absurd (hpq.trans hqp) (lt_irrefl _))
      t.sorted t'.sorted
  cases t
  cases t'
  simpa using he

theorem insert_eq_self (h : t.get k = some v) : t.insert k v = t := by
  refine ext_get fun k' => ?_
  rw [get_insert]
  split_ifs with hk
  · rw [hk, h]
  · rfl

variable (t)

@[simp] theorem insert_insert (k : κ) (v w : α) :
    (t.insert k v).insert k w = t.insert k w := by
  refine ext_get fun k' => ?_
  simp only [get_insert]
  split_ifs <;> rfl

/-! ## Removing rows -/

def filter (p : κ → α → Bool) (t : Table κ α) : Table κ α :=
  ⟨t.entries.filter fun e => p e.1 e.2, t.sorted.filter _⟩

theorem get_filter (p : κ → α → Bool) (t : Table κ α) (k : κ) :
    (t.filter p).get k = (t.get k).filter (p k) := by
  refine Option.ext fun v => ?_
  rw [← mem_entries, Option.filter_eq_some_iff, ← mem_entries, filter, mem_filter]

def erase (t : Table κ α) (k : κ) : Table κ α := t.filter fun k' _ => k' ≠ k

theorem get_erase (k k' : κ) :
    (t.erase k).get k' = if k' = k then none else t.get k' := by
  rw [erase, get_filter]
  split_ifs with h
  · simp [h]
  · cases t.get k' <;> simp [h]

theorem get_erase_self (k : κ) : (t.erase k).get k = none := by
  rw [get_erase, if_pos rfl]

variable {t}

theorem erase_eq_self (h : t.get k = none) : t.erase k = t := by
  refine ext_get fun k' => ?_
  rw [get_erase]
  split_ifs with hk
  · rw [hk, h]
  · rfl

theorem insert_erase (t : Table κ α) (k : κ) (v : α) : (t.erase k).insert k v = t.insert k v := by
  refine ext_get fun k' => ?_
  rw [get_insert, get_insert, get_erase]
  split_ifs <;> rfl

/-! ## Writing a list of rows -/

section

variable {β : Type*} (key : β → κ) (row : β → α)

/-- Write one row for every element of a list. -/
def writeAll (t : Table κ α) (l : List β) : Table κ α :=
  l.foldl (fun t b => t.insert (key b) (row b)) t

theorem get_writeAll (t : Table κ α) (l : List β) (k : κ) :
    (∃ b ∈ l, key b = k ∧ (t.writeAll key row l).get k = some (row b)) ∨
    ((∀ b ∈ l, key b ≠ k) ∧ (t.writeAll key row l).get k = t.get k) := by
  induction l generalizing t with
  | nil => exact .inr ⟨nofun, rfl⟩
  | cons b l ih =>
    rcases ih (t.insert (key b) (row b)) with ⟨c, hc, hk, hrow⟩ | ⟨hk, hrow⟩
    · exact .inl ⟨c, mem_cons_of_mem _ hc, hk, hrow⟩
    · rw [get_insert] at hrow
      by_cases hb : k = key b
      · rw [if_pos hb] at hrow
        exact .inl ⟨b, mem_cons_self, hb.symm, hrow⟩
      · rw [if_neg hb] at hrow
        refine .inr ⟨fun c hc => ?_, hrow⟩
        rcases mem_cons.mp hc with rfl | hc
        · exact Ne.symm hb
        · exact hk c hc

theorem get_writeAll_of_mem {l : List β} (hl : l.Pairwise fun b c => key b ≠ key c)
    {b : β} (hb : b ∈ l) : (t.writeAll key row l).get (key b) = some (row b) := by
  rcases get_writeAll key row t l (key b) with ⟨c, hc, hk, hrow⟩ | ⟨hk, -⟩
  · rw [hrow, inj_on_of_nodup_map (pairwise_map.mpr hl) hc hb hk]
  · exact absurd rfl (hk b hb)

end

/-! ## Sums over the rows -/

theorem sum_entries (t : Table κ α) (g : α → ℕ) : t.sum g = (t.entries.map fun p => g p.2).sum := by
  simp [sum, values, Function.comp_def]

variable (g : α → ℕ)

theorem sum_insertEntry (k : κ) (v : α) {l : List (κ × α)} (hl : l.Pairwise fun p q => p.1 < q.1) :
    ((insertEntry k v l).map fun p => g p.2).sum + (lookupEntry k l).elim 0 g =
      (l.map fun p => g p.2).sum + g v := by
  induction l with
  | nil => simp [insertEntry, lookupEntry]
  | cons q l ih =>
    obtain ⟨hq, hl⟩ := pairwise_cons.mp hl
    rw [insertEntry, lookupEntry]
    split_ifs with h₁ h₂ h₃ h₄ h₅
    · exact absurd h₁ (h₂ ▸ lt_irrefl _)
    · -- below the head key, so no entry carries `k`
      have hn : lookupEntry k l = none := by
        refine Option.eq_none_iff_forall_not_mem.mpr fun w hw => ?_
        exact absurd (h₁.trans (hq _ ((mem_lookupEntry hl).mpr hw))) (lt_irrefl _)
      simp only [hn, map_cons, sum_cons, Option.elim_none]
      omega
    · simp only [map_cons, sum_cons, Option.elim_some]
      omega
    · exact absurd h₃.symm h₄
    · exact absurd h₅.symm h₃
    · have := ih hl
      simp only [map_cons, sum_cons]
      omega

theorem sum_insert (t : Table κ α) (g : α → ℕ) (k : κ) (v : α) :
    (t.insert k v).sum g + (t.get k).elim 0 g = t.sum g + g v := by
  rw [sum_entries, sum_entries]
  exact sum_insertEntry g k v t.sorted

theorem sum_insert_old (v : α) {w : α}
    (h : t.get k = some w) : (t.insert k v).sum g + g w = t.sum g + g v := by
  simpa [h] using t.sum_insert g k v

theorem le_sum {v : α} (h : t.get k = some v) : g v ≤ t.sum g :=
  le_sum_of_mem (mem_map.mpr ⟨v, mem_values.mpr ⟨k, h⟩, rfl⟩)

theorem countP_values (t : Table κ α) (p : α → Bool) :
    t.values.countP p = t.sum fun v => (p v).toNat := by
  rw [sum]
  induction t.values with
  | nil => rfl
  | cons v l ih =>
    rw [map_cons, sum_cons, ← ih, countP_cons]
    cases p v with
    | true => simp [Nat.add_comm]
    | false => simp

theorem countP_insert (t : Table κ α) (p : α → Bool) (k : κ) (v : α) :
    (t.insert k v).values.countP p + (t.get k).elim 0 (fun w => (p w).toNat) =
      t.values.countP p + (p v).toNat := by
  rw [countP_values, countP_values]
  exact t.sum_insert _ k v

theorem sum_eq_zero {g : α → ℕ} (h : ∀ k v, t.get k = some v → g v = 0) : t.sum g = 0 :=
  List.sum_eq_zero fun n hn => by
    obtain ⟨v, hv, rfl⟩ := mem_map.mp hn
    obtain ⟨k, hk⟩ := mem_values.mp hv
    exact h k v hk

/-! ## The greatest entry -/

theorem insertEntry_of_forall_lt {v : α} {l : List (κ × α)} (h : ∀ p ∈ l, p.1 < k) :
    insertEntry k v l = l ++ [(k, v)] := by
  induction l with
  | nil => rfl
  | cons q l ih =>
    have hq := h q mem_cons_self
    rw [insertEntry, if_neg hq.not_gt, if_neg hq.ne', ih fun p hp => h p (mem_cons_of_mem _ hp),
      cons_append]

theorem entries_insert_of_forall_lt (v : α)
    (h : ∀ p ∈ t.entries, p.1 < k) : (t.insert k v).entries = t.entries ++ [(k, v)] :=
  insertEntry_of_forall_lt h

/-- Rewriting an existing row keeps the keys, in their order, and what of the rows the new one
shares with the old. -/
theorem map_entries_insert_old {β : Type w} (g : α → β) {v v₀ : α}
    (h : t.get k = some v₀) (hg : g v = g v₀) :
    (t.insert k v).entries.map (fun p => (p.1, g p.2)) = t.entries.map fun p => (p.1, g p.2) := by
  suffices H : ∀ l : List (κ × α), (l.Pairwise fun p q => p.1 < q.1) →
      lookupEntry k l = some v₀ → (insertEntry k v l).map (fun p => (p.1, g p.2)) =
        l.map fun p => (p.1, g p.2) from
    H t.entries t.sorted h
  intro l hl h
  induction l with
  | nil => cases h
  | cons q l ih =>
    obtain ⟨k', v'⟩ := q
    obtain ⟨hq, hl⟩ := pairwise_cons.mp hl
    rw [lookupEntry] at h
    rw [insertEntry]
    by_cases hk : k' = k
    · rw [if_pos hk] at h
      cases h
      simp [hk, hg]
    · rw [if_neg hk] at h
      have hlt : k' < k := hq _ ((mem_lookupEntry hl).mpr h)
      rw [if_neg hlt.not_gt, if_neg (Ne.symm hk), map_cons, map_cons, ih hl h]

end Table

end Octos
