import Mathlib.Data.List.Basic

/-!
# Lists in blocks

A list whose items are heads or rows, by a test on the item: some rows without a head come first,
and then blocks of a head and the rows that follow it directly.
-/

namespace Octos

variable {α : Type} {p : α → Bool}

/-- A head and the rows that follow it. -/
structure Block (p : α → Bool) where
  head : α
  rows : List α
  head_not : p head = false
  rows_all : ∀ a ∈ rows, p a = true

namespace Block

def keep (b : Block p) (f : α → Bool) : Block p :=
  { b with rows := b.rows.filter f, rows_all := fun a ha => b.rows_all a (List.mem_filter.mp ha).1 }

def flat (bs : List (Block p)) : List α := bs.flatMap fun b => b.head :: b.rows

@[simp] theorem flat_nil : flat ([] : List (Block p)) = [] := rfl

variable (b : Block p)

@[simp] theorem flat_cons (bs : List (Block p)) :
    flat (b :: bs) = b.head :: b.rows ++ flat bs := rfl

@[simp] theorem flat_append (bs cs : List (Block p)) : flat (bs ++ cs) = flat bs ++ flat cs :=
  List.flatMap_append

variable {bs : List (Block p)} {a : α}

theorem mem_flat : a ∈ flat bs ↔ ∃ b ∈ bs, a = b.head ∨ a ∈ b.rows := by
  simp [flat]

/-- **Every list is some rows and then blocks.** -/
theorem exists_blocks (p : α → Bool) (l : List α) :
    ∃ (pre : List α) (bs : List (Block p)), (∀ a ∈ pre, p a = true) ∧ l = pre ++ flat bs := by
  induction l with
  | nil => exact ⟨[], [], by simp, rfl⟩
  | cons a l ih =>
    obtain ⟨pre, bs, hpre, rfl⟩ := ih
    cases ha : p a with
    | true =>
      refine ⟨a :: pre, bs, ?_, rfl⟩
      rintro c (_ | ⟨_, hc⟩)
      exacts [ha, hpre c hc]
    | false => exact ⟨[], ⟨a, pre, ha, hpre⟩ :: bs, by simp, rfl⟩

variable {pre l r : List α}

/-- Where an item of the list lies: before the blocks, or as the head or a row of one. -/
theorem split_mem (h : pre ++ flat bs = l ++ a :: r) :
    (∃ t, pre = l ++ a :: t) ∨ ∃ bs₁ b bs₂, bs = bs₁ ++ b :: bs₂ ∧
      ((b.head = a ∧ l = pre ++ flat bs₁ ∧ r = b.rows ++ flat bs₂) ∨
        ∃ r₁ r₂, b.rows = r₁ ++ a :: r₂ ∧ l = pre ++ flat bs₁ ++ b.head :: r₁) := by
  induction bs generalizing pre l with
  | nil => exact .inl ⟨r, by simpa using h⟩
  | cons b bs ih =>
    rcases List.append_eq_append_iff.mp h with ⟨_ | ⟨d, c⟩, hl, hc⟩ | ⟨_ | ⟨d, c⟩, hp, hc⟩ <;>
      obtain ⟨hb, hr⟩ := List.cons.inj hc
    · exact .inr ⟨[], b, bs, rfl, .inl ⟨hb, by simpa using hl, hr.symm⟩⟩
    · right
      rcases ih hr with ⟨t, ht⟩ | ⟨bs₁, b', bs₂, rfl, ⟨hb', hc', hr'⟩ | ⟨r₁, r₂, hb', hc'⟩⟩
      · exact ⟨[], b, bs, rfl, .inr ⟨c, t, ht, by simp [hl, hb]⟩⟩
      · exact ⟨b :: bs₁, b', bs₂, rfl, .inl ⟨hb', by simp [hl, hb, hc'], hr'⟩⟩
      · exact ⟨b :: bs₁, b', bs₂, rfl, .inr ⟨r₁, r₂, hb', by simp [hl, hb, hc']⟩⟩
    · exact .inr ⟨[], b, bs, rfl, .inl ⟨hb.symm, by simpa using hp.symm, hr⟩⟩
    · exact .inl ⟨c, by rw [hp, hb]⟩

theorem split_head (hpre : ∀ c ∈ pre, p c = true) (ha : p a = false)
    (h : pre ++ flat bs = l ++ a :: r) :
    ∃ bs₁ b bs₂, bs = bs₁ ++ b :: bs₂ ∧ b.head = a ∧ l = pre ++ flat bs₁ ∧
      r = b.rows ++ flat bs₂ := by
  rcases split_mem h with ⟨t, ht⟩ | ⟨bs₁, b, bs₂, hbs, hb | ⟨r₁, r₂, hrows, -⟩⟩
  · exact absurd (hpre a (by simp [ht])) (by simp [ha])
  · exact ⟨bs₁, b, bs₂, hbs, hb⟩
  · exact absurd (b.rows_all a (by simp [hrows])) (by simp [ha])

theorem split_row (ha : p a = true) (h : pre ++ flat bs = l ++ a :: r) :
    (∃ t, pre = l ++ a :: t) ∨
      ∃ bs₁ b bs₂ r₁ r₂, bs = bs₁ ++ b :: bs₂ ∧ b.rows = r₁ ++ a :: r₂ ∧
        l = pre ++ flat bs₁ ++ b.head :: r₁ := by
  rcases split_mem h with ht | ⟨bs₁, b, bs₂, hbs, ⟨rfl, -⟩ | ⟨r₁, r₂, hrows⟩⟩
  · exact .inl ht
  · exact absurd ha (by simp [b.head_not])
  · exact .inr ⟨bs₁, b, bs₂, r₁, r₂, hbs, hrows⟩

theorem last_head_unique {l' r' : List α} {a a' : α} (ha : p a = false) (ha' : p a' = false)
    (hr : ∀ c ∈ r, p c = true) (hr' : ∀ c ∈ r', p c = true) (h : l ++ a :: r = l' ++ a' :: r') :
    a = a' := by
  rcases List.append_eq_append_iff.mp h with ⟨_ | ⟨d, c⟩, -, hc⟩ | ⟨_ | ⟨d, c⟩, -, hc⟩ <;>
    obtain ⟨heq, hrest⟩ := List.cons.inj hc
  · exact heq
  · exact absurd (hr a' (by simp [hrest])) (by simp [ha'])
  · exact heq.symm
  · exact absurd (hr' a (by simp [hrest])) (by simp [ha])

theorem takeWhile_rows (bs : List (Block p)) : (b.rows ++ flat bs).takeWhile p = b.rows := by
  rw [List.takeWhile_append_of_pos b.rows_all]
  cases bs with
  | nil => simp
  | cons c bs => simp [c.head_not]

end Block

end Octos
