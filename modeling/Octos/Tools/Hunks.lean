import Octos.Base.Splices
import Octos.Base.Text

/-!
# Hunk bodies

The classified lines of a hunk and the comparison of a block of a file with them, as the two patch
tools share them. Lines are compared without their trailing white space.
-/

namespace Octos.Tools

open List

inductive DiffLine
  | context (s : Text)
  | remove (s : Text)
  | add (s : Text)

/-- The text of a line that must be in the file. -/
def DiffLine.pattern? : DiffLine → Option Text
  | context s | remove s => some s
  | add _ => none

/-- The text of a line that is in the result. -/
def DiffLine.replacement? : DiffLine → Option Text
  | context s | add s => some s
  | remove _ => none

def patternLines (body : List DiffLine) : List Text := body.filterMap DiffLine.pattern?

def replacementLines (body : List DiffLine) : List Text := body.filterMap DiffLine.replacement?

/-- Whether a pattern matches some lines at a position, without regard to trailing white space. -/
def matchesAt (ls pattern : List Text) (start : ℕ) : Bool :=
  if start + pattern.length > ls.length then false
  else ((ls.drop start).zip pattern).all fun p => trimEnd p.1 == trimEnd p.2

/-- The same lines up to trailing white space. -/
def SameLines (block pattern : List Text) : Prop := block.map trimEnd = pattern.map trimEnd

instance decidableSameLines : DecidableRel SameLines := fun block pattern =>
  inferInstanceAs (Decidable (block.map trimEnd = pattern.map trimEnd))

/-- A body at a line of a file, as a block and its new lines. -/
def bodyBlock (start : ℕ) (body : List DiffLine) : Replacement Text :=
  ⟨start, (patternLines body).length, replacementLines body⟩

/-- The block of a file at a line is the pattern of a body. -/
def Covers (xs : List Text) (start : ℕ) (body : List DiffLine) : Prop :=
  SameLines ((xs.drop start).take (patternLines body).length) (patternLines body)

instance decidableCovers (xs : List Text) (start : ℕ) (body : List DiffLine) :
    Decidable (Covers xs start body) :=
  decidableSameLines _ _

/-! ## Texts as lines -/

def endsWithNewline (content : Text) : Bool := content.getLast? == some '\n'

def renderLines (final : Bool) (ls : List Text) : Text :=
  joinLines ls ++ if final then ['\n'] else []

/-! ## Matches -/

section

variable {ls xs pattern before : List Text} {p k b : ℕ}

theorem zip_all_iff (h : pattern.length ≤ ls.length) :
    ((ls.zip pattern).all fun p => trimEnd p.1 == trimEnd p.2) = true ↔
      SameLines (ls.take pattern.length) pattern := by
  induction pattern generalizing ls with
  | nil => simp [SameLines]
  | cons t pattern ih =>
    cases ls with
    | nil => simp at h
    | cons l ls =>
      have hle : pattern.length ≤ ls.length := Nat.le_of_succ_le_succ h
      have hhead : SameLines ((l :: ls).take (t :: pattern).length) (t :: pattern) ↔
          trimEnd l = trimEnd t ∧ SameLines (ls.take pattern.length) pattern := by
        simp [SameLines]
      rw [hhead, ← ih hle, zip_cons_cons, all_cons, Bool.and_eq_true, beq_iff_eq]

/-- **A pattern matches where the file has the same lines.** -/
theorem matchesAt_iff : matchesAt ls pattern p = true ↔
    p + pattern.length ≤ ls.length ∧ SameLines ((ls.drop p).take pattern.length) pattern := by
  rw [matchesAt]
  split_ifs with hlen
  · refine iff_of_false not_false fun h => ?_
    omega
  · rw [zip_all_iff]
    · exact ⟨fun h => ⟨by omega, h⟩, fun h => h.2⟩
    · rw [length_drop]
      omega

theorem matchesAt_append_drop (hk : k ≤ p) (hlen : k ≤ xs.length) :
    matchesAt (before ++ xs.drop k) pattern (before.length + (p - k)) = matchesAt xs pattern p := by
  rw [Bool.eq_iff_iff, matchesAt_iff, matchesAt_iff]
  have hdrop : (before ++ xs.drop k).drop (before.length + (p - k)) = xs.drop p := by
    rw [drop_append, drop_eq_nil_of_le (by omega), drop_drop, nil_append]
    congr 1
    omega
  rw [hdrop, length_append, length_drop]
  refine and_congr ?_ Iff.rfl
  omega

theorem matchesAt_of_take_eq (h : ls.take b = xs.take b) (hp : p + pattern.length ≤ b)
    (hm : matchesAt ls pattern p = true) : matchesAt xs pattern p = true := by
  rw [matchesAt_iff] at hm ⊢
  have hwindow : (ls.drop p).take pattern.length = (xs.drop p).take pattern.length := by
    have h' := congrArg (fun l => (l.take (p + pattern.length)).drop p) h
    simpa only [take_take, Nat.min_eq_left hp, drop_take, Nat.add_sub_cancel_left]
      using h'
  have hlen := congrArg List.length h
  rw [length_take, length_take] at hlen
  rw [← hwindow]
  refine ⟨?_, hm.2⟩
  omega

end

end Octos.Tools
