import Mathlib.Algebra.Order.Group.Nat

/-!
# Checked machine arithmetic

Addition and subtraction of unsigned machine integers that report overflow instead of wrapping.
Each operation is characterized by one equation between the numbers its operands stand for.
-/

namespace Octos

/-- `u64::checked_add`: the sum, unless it overflows. -/
def checkedAdd (a b : UInt64) : Option UInt64 :=
  if a.toNat + b.toNat < 2 ^ 64 then some (a + b) else none

/-- `u64::checked_sub`: the difference, unless it underflows. -/
def checkedSub (a b : UInt64) : Option UInt64 :=
  if b.toNat ≤ a.toNat then some (a - b) else none

def checkedAdd32 (a b : UInt32) : Option UInt32 :=
  if a.toNat + b.toNat < 2 ^ 32 then some (a + b) else none

/-- `u64::saturating_add`: the sum, or the greatest number. -/
def saturatingAdd (a b : UInt64) : UInt64 :=
  if a.toNat + b.toNat < 2 ^ 64 then a + b else UInt64.ofNat (2 ^ 64 - 1)

variable {a b c : UInt64}

theorem checkedAdd_eq_some : checkedAdd a b = some c ↔ c.toNat = a.toNat + b.toNat := by
  unfold checkedAdd
  have hc := c.toNat_lt
  split_ifs with h
  · rw [Option.some_inj, ← UInt64.toNat_inj, UInt64.toNat_add, Nat.mod_eq_of_lt h, eq_comm]
  · simp only [false_iff]
    omega

theorem checkedAdd_eq_none : checkedAdd a b = none ↔ 2 ^ 64 ≤ a.toNat + b.toNat := by
  unfold checkedAdd
  split_ifs with h <;> simp <;> omega

theorem checkedSub_eq_some : checkedSub a b = some c ↔ c.toNat + b.toNat = a.toNat := by
  unfold checkedSub
  split_ifs with h
  · rw [Option.some_inj, ← UInt64.toNat_inj, UInt64.toNat_sub_of_le _ _ h]
    omega
  · simp only [false_iff]
    omega

theorem checkedSub_eq_none : checkedSub a b = none ↔ a.toNat < b.toNat := by
  unfold checkedSub
  split_ifs with h <;> simp <;> omega

instance uint64LawfulOrderMax : Std.LawfulOrderMax UInt64 where
  max_eq_or a b := by
    rw [UInt64.max_def]
    split_ifs <;> simp
  max_le_iff a b c := by
    rw [UInt64.max_def]
    split_ifs with h <;> simp only [UInt64.le_iff_toNat_le] at * <;> omega

variable {ε α β : Type}

/-- `Option::ok_or_else`: the value, or the error `e`. -/
def orError (o : Option α) (e : ε) : Except ε α :=
  match o with
  | some a => .ok a
  | none => .error e

variable {o : Option α} {e : ε}

theorem orError_eq_ok {a : α} : orError o e = .ok a ↔ o = some a := by
  cases o <;> simp [orError]

theorem orError_eq_error {e e' : ε} : orError o e = .error e' ↔ o = none ∧ e = e' := by
  cases o <;> simp [orError]

variable {x : Except ε α} {f : α → Except ε β}

theorem bind_eq_ok {b : β} : (x >>= f) = .ok b ↔ ∃ a, x = .ok a ∧ f a = .ok b := by
  cases x <;> simp [bind, Except.bind]

theorem except_toOption_eq_some {a : α} : x.toOption = some a ↔ x = .ok a := by
  cases x <;> simp [Except.toOption]

theorem bind_eq_error : (x >>= f) = .error e ↔ x = .error e ∨ ∃ a, x = .ok a ∧ f a = .error e := by
  cases x <;> simp [bind, Except.bind]

theorem map_eq_ok {f : α → β} {b : β} : f <$> x = .ok b ↔ ∃ a, x = .ok a ∧ f a = b := by
  cases x <;> simp [Functor.map, Except.map]

theorem mapError_eq_ok {ε' : Type _} {g : ε → ε'} {a : α} : x.mapError g = .ok a ↔ x = .ok a := by
  cases x <;> simp [Except.mapError]

theorem forM_eq_ok {g : α → Except ε Unit} {l : List α} :
    l.forM g = .ok () ↔ ∀ a ∈ l, g a = .ok () := by
  induction l with
  | nil => simp [List.forM, pure, Except.pure]
  | cons a l ih =>
    change (g a >>= fun _ => l.forM g) = .ok () ↔ _
    rw [List.forall_mem_cons, ← ih, bind_eq_ok]
    exact ⟨fun ⟨⟨⟩, ha, hl⟩ => ⟨ha, hl⟩, fun ⟨ha, hl⟩ => ⟨(), ha, hl⟩⟩

end Octos
