import Mathlib.Data.List.Sort

/-!
# Priority queues

A priority queue as the list of its entries in the order in which it gives them out. Entries that
the order does not tell apart are given out one after the other.
-/

namespace Octos

/-- A priority queue: its entries in the order in which they are given out. -/
structure Heap {α : Type} (r : α → α → Prop) where
  entries : List α
  sorted : entries.Pairwise r

namespace Heap

variable {α : Type} {r : α → α → Prop}

def empty : Heap r := ⟨[], List.Pairwise.nil⟩

instance [DecidableEq α] : DecidableEq (Heap r) := fun h h' =>
  decidable_of_iff (h.entries = h'.entries) (by cases h; cases h'; simp)

variable [DecidableRel r] [Std.Total r] [IsTrans α r]

def push (h : Heap r) (a : α) : Heap r := ⟨h.entries.orderedInsert r a, h.sorted.orderedInsert a _⟩

def pushAll (h : Heap r) (l : List α) : Heap r := l.foldl push h

def ofList (l : List α) : Heap r := ⟨l.insertionSort r, List.pairwise_insertionSort r l⟩

theorem perm_push (h : Heap r) (a : α) : (h.push a).entries.Perm (a :: h.entries) :=
  List.perm_orderedInsert r a h.entries

theorem perm_pushAll (h : Heap r) (l : List α) : (h.pushAll l).entries.Perm (l ++ h.entries) := by
  induction l generalizing h with
  | nil => rfl
  | cons a l ih =>
    have h₁ : ((h.push a).pushAll l).entries.Perm (l ++ (h.push a).entries) := ih (h.push a)
    have h₂ : (l ++ (h.push a).entries).Perm (l ++ a :: h.entries) := (h.perm_push a).append_left l
    exact (h₁.trans h₂).trans List.perm_middle

theorem perm_ofList (l : List α) : (ofList l : Heap r).entries.Perm l :=
  List.perm_insertionSort r l

end Heap

end Octos
