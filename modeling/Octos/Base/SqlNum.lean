import Octos.Base.Binary64
import Octos.Base.Checked

/-!
# Numbers of an SQLite integer column

A non-negative number as an `INTEGER` column stores it. A bound parameter is a signed 64-bit
integer. A sum that leaves that range is computed in doubles; the column stores it as an integer
again if it is one in range, and as the double otherwise. So the stored numbers are the naturals
below `2 ^ 63` and the doubles from there on, and each is a natural number.
-/

namespace Octos

/-- A number of an integer column: an integer in range, or a double. -/
structure SqlNum where
  val : ℕ
  stored : val < 2 ^ 63 ∨ roundDouble val = val
  deriving DecidableEq

namespace SqlNum

instance : LE SqlNum := ⟨fun a b => a.val ≤ b.val⟩

instance (a b : SqlNum) : Decidable (a ≤ b) := inferInstanceAs (Decidable (a.val ≤ b.val))

theorem le_def {a b : SqlNum} : a ≤ b ↔ a.val ≤ b.val := Iff.rfl

theorem le_refl (a : SqlNum) : a ≤ a := Nat.le_refl a.val

theorem le_trans {a b c : SqlNum} (h : a ≤ b) (h' : b ≤ c) : a ≤ c := Nat.le_trans h h'

/-- `MAX(a, b)`. -/
instance : Max SqlNum := ⟨fun a b => if a ≤ b then b else a⟩

variable (a b : SqlNum)

theorem max_eq : max a b = if a ≤ b then b else a := rfl

theorem ext {a b : SqlNum} (h : a.val = b.val) : a = b := by
  cases a
  cases h
  rfl

theorem val_max : (max a b).val = max a.val b.val := by
  rw [max_eq]
  split_ifs with h
  · exact (max_eq_right h).symm
  · exact (max_eq_left (Nat.le_of_not_le h)).symm

theorem le_max_left : a ≤ max a b := by
  rw [max_eq]
  split_ifs with h
  · exact h
  · exact le_refl a

/-- Bind an unsigned parameter; one beyond the signed range is not bound. -/
def ofU64 (n : UInt64) : Option SqlNum :=
  if h : n.toNat < 2 ^ 63 then some ⟨n.toNat, .inl h⟩ else none

theorem ofU64_of_lt {n : UInt64} (h : n.toNat < 2 ^ 63) : ofU64 n = some ⟨n.toNat, .inl h⟩ :=
  dif_pos h

/-- The constants `0` and `1`. -/
instance : Zero SqlNum := ⟨⟨0, .inl (by decide)⟩⟩

instance : One SqlNum := ⟨⟨1, .inl (by decide)⟩⟩

/-- `a + b`: the integer sum, or the sum of the doubles when that overflows. -/
def add : SqlNum :=
  if h : a.val + b.val < 2 ^ 63 then ⟨a.val + b.val, .inl h⟩
  else ⟨roundDouble (roundDouble a.val + roundDouble b.val), .inr (roundDouble_idem _)⟩

/-- Rounding the summands and the sum of an overflowing addition loses less than it adds. -/
theorem le_roundDouble_overflow {a b : ℕ} (ha : a < 2 ^ 63) (hsum : 2 ^ 63 ≤ a + b) :
    a ≤ roundDouble (roundDouble a + roundDouble b) := by
  have hloss := le_roundDouble_add_half ha
  by_cases hbig : 2 ^ 63 - 512 ≤ roundDouble a + roundDouble b
  · -- from half a unit below the range on, a sum rounds to its bound or beyond
    have hround : roundDouble (2 ^ 63 - 512) = 2 ^ 63 := by decide
    have hmono := roundDouble_mono hbig
    omega
  · -- the second summand is large, and so are the sums below the bound
    have hb : 1024 ≤ roundDouble b := by
      by_contra hsmall
      have hlt : b < 1024 := by
        by_contra hge
        have hmono : roundDouble 1024 ≤ roundDouble b := roundDouble_mono (by omega)
        rw [roundDouble_of_lt (by decide)] at hmono
        omega
      have hexact : roundDouble b = b := roundDouble_of_lt (by omega)
      omega
    have hsumloss := le_roundDouble_add_half (n := roundDouble a + roundDouble b) (by omega)
    omega

theorem val_add :
    (a.add b).val = if a.val + b.val < 2 ^ 63 then a.val + b.val
      else roundDouble (roundDouble a.val + roundDouble b.val) := by
  unfold add
  split_ifs <;> simp only

theorem val_add_of_lt {a b : SqlNum} (h : a.val + b.val < 2 ^ 63) :
    (a.add b).val = a.val + b.val := by
  rw [val_add, if_pos h]

theorem le_add : a ≤ a.add b := by
  rw [le_def, val_add]
  split_ifs with h
  · exact Nat.le_add_right a.val b.val
  · rcases a.stored with ha | ha
    · exact le_roundDouble_overflow ha (by omega)
    · rw [ha]
      exact le_roundDouble_add ha _

end SqlNum

end Octos
