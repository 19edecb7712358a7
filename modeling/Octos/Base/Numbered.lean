import Mathlib.Data.List.Infix
import Mathlib.Data.List.Range

/-!
# Consecutively numbered lists

A log whose entries carry the numbers 1, 2, 3, … is determined by any of its tails as far back as
the tail reaches. What is kept of such a log is a suffix of it: a bounded tail, a tail of an older
state joined to what came since, the entries after a number. This file says when such a piece still
answers for the log.
-/

namespace Octos

open List

variable {α β : Type}

/-! ## Numbered lists -/

section

variable (seq : α → ℕ)

/-- The entries of `xs` carry the numbers 1, 2, 3, … -/
def Numbered (xs : List α) : Prop := xs.map seq = List.range' 1 xs.length

variable {seq} {xs ys zs : List α}

theorem numbered_nil : Numbered seq [] := rfl

theorem Numbered.concat (h : Numbered seq xs) {x : α} (hx : seq x = xs.length + 1) :
    Numbered seq (xs ++ [x]) := by
  rw [Numbered, map_append, h, length_append, length_singleton,
    range'_1_concat, map_singleton, hx, Nat.add_comm 1 xs.length]

theorem numbered_map {f : β → α} {bs : List β} :
    Numbered seq (bs.map f) ↔ Numbered (fun b => seq (f b)) bs := by
  rw [Numbered, Numbered, map_map, length_map]
  rfl

section

variable (h : Numbered seq xs)
include h

theorem Numbered.getElem {i : ℕ} (hi : i < xs.length) : seq xs[i] = i + 1 := by
  have hmap : (xs.map seq)[i]? = (List.range' 1 xs.length)[i]? := by rw [h]
  rw [getElem?_map, getElem?_eq_getElem hi, getElem?_range' hi] at hmap
  simpa [Nat.add_comm] using hmap

theorem Numbered.mem_le {x : α} (hx : x ∈ xs) : 1 ≤ seq x ∧ seq x ≤ xs.length := by
  have hmem : seq x ∈ List.range' 1 xs.length := h ▸ mem_map_of_mem hx
  rw [mem_range'_1] at hmem
  omega

theorem Numbered.take (n : ℕ) : Numbered seq (xs.take n) := by
  rcases le_total n xs.length with hle | hle
  · have hsplit : List.range' 1 xs.length =
        List.range' 1 n ++ List.range' (1 + n) (xs.length - n) := by
      rw [range'_append_1, Nat.add_sub_cancel' hle]
    rw [Numbered, map_take, h, hsplit, take_left' length_range', length_take, min_eq_left hle]
  · rwa [take_of_length_le hle]

variable (c : ℕ)

theorem Numbered.map_drop : (xs.drop c).map seq = List.range' (c + 1) (xs.length - c) := by
  rw [List.map_drop, h, drop_range', Nat.mul_one, Nat.add_comm]

theorem Numbered.filter_lt : xs.filter (fun x => c < seq x) = xs.drop c := by
  conv_lhs => rw [← take_append_drop c xs, filter_append]
  have hlow : (xs.take c).filter (fun x => c < seq x) = [] := by
    rw [filter_eq_nil_iff]
    intro x hx
    have hle := ((h.take c).mem_le hx).2
    have := length_take_le c xs
    simpa using hle.trans this
  have hhigh : (xs.drop c).filter (fun x => c < seq x) = xs.drop c := by
    rw [filter_eq_self]
    intro x hx
    have hmem : seq x ∈ (xs.drop c).map seq := mem_map_of_mem hx
    rw [h.map_drop, mem_range'_1] at hmem
    simpa using Nat.lt_of_succ_le hmem.1
  rw [hlow, hhigh, nil_append]

end

/-! ## Suffixes -/

section

variable (h : Numbered seq xs) (hs : ys <:+ xs)
include h hs

theorem Numbered.head_suffix {y : α}
    (hy : ys.head? = some y) : seq y + ys.length = xs.length + 1 := by
  have hle := hs.length_le
  have hpos : 0 < ys.length := length_pos_iff.mpr (by rintro rfl; simp at hy)
  have hmap := congrArg List.head? (h.map_drop (xs.length - ys.length))
  rw [← suffix_iff_eq_drop.mp hs, head?_map, hy, head?_range'] at hmap
  rw [if_neg (by omega)] at hmap
  simp only [Option.map_some, Option.some.injEq] at hmap
  omega

/-- **The entries after `c`, taken from a suffix that reaches back to `c`**, are the entries of the
log after `c`. -/
theorem Numbered.filter_suffix {c : ℕ}
    (hc : xs.length ≤ c + ys.length) : ys.filter (fun x => c < seq x) = xs.drop c := by
  obtain ⟨front, rfl⟩ := hs
  have hall := h.filter_lt c
  -- the front carries no number past `c`
  have htake := h.take front.length
  rw [length_append] at hc
  rw [take_left] at htake
  rwa [filter_append, htake.filter_lt c, drop_eq_nil_of_le (by omega), nil_append] at hall

theorem Numbered.foldl_max_suffix (hne : ys ≠ []) {start : ℕ}
    (hstart : start ≤ xs.length) : (ys.map seq).foldl max start = xs.length := by
  have hbound : ∀ y ∈ ys, seq y ≤ xs.length := fun y hy => (h.mem_le (hs.subset hy)).2
  have hlast : seq (ys.getLast hne) = xs.length := by
    obtain ⟨front, rfl⟩ := hs
    have hlen : (front ++ ys).length - 1 < (front ++ ys).length := by
      have := length_pos_iff.mpr hne
      rw [length_append]
      omega
    have hget := h.getElem hlen
    rw [← getLast_eq_getElem (by simp [hne]), getLast_append_of_ne_nil _ hne] at hget
    omega
  clear hs
  induction ys generalizing start with
  | nil => exact absurd rfl hne
  | cons y ys ih =>
    have hy := hbound y mem_cons_self
    rw [map_cons, foldl_cons]
    rcases eq_or_ne ys [] with rfl | hys
    · simp only [getLast_singleton] at hlast
      simp only [map_nil, foldl_nil]
      omega
    · refine ih hys (by omega) (fun z hz => hbound z (mem_cons_of_mem _ hz)) ?_
      rwa [getLast_cons hys] at hlast

end

/-- **Stitching.** A suffix of the log's first `h` entries, followed by the entries after `h` of a
suffix that reaches back to `h`, is a suffix of the log. -/
theorem Numbered.stitch (hn : Numbered seq xs) {h : ℕ} (hz : zs <:+ xs.take h) (hy : ys <:+ xs)
    (hreach : xs.length ≤ h + ys.length) :
    zs ++ ys.filter (fun x => h < seq x) <:+ xs := by
  rw [hn.filter_suffix hy hreach]
  obtain ⟨front, hfront⟩ := hz
  refine ⟨front, ?_⟩
  rw [← append_assoc, hfront, take_append_drop]

end

/-! ## Bounded tails -/

def keepLast (cap : ℕ) (xs : List α) : List α := xs.drop (xs.length - cap)

variable (cap : ℕ)

theorem keepLast_suffix (xs : List α) : keepLast cap xs <:+ xs := drop_suffix ..

theorem length_keepLast (xs : List α) : (keepLast cap xs).length = min cap xs.length := by
  rw [keepLast, length_drop]
  omega

theorem keepLast_of_length_le {cap : ℕ} {xs : List α} (h : xs.length ≤ cap) :
    keepLast cap xs = xs := by
  rw [keepLast, Nat.sub_eq_zero_of_le h, drop_zero]

theorem keepLast_append (xs ys : List α) :
    keepLast cap (keepLast cap xs ++ ys) = keepLast cap (xs ++ ys) := by
  have hs : keepLast cap xs ++ ys <:+ xs ++ ys := by
    obtain ⟨front, hfront⟩ := keepLast_suffix cap xs
    exact ⟨front, by rw [← append_assoc, hfront]⟩
  -- both are the suffixes of `xs ++ ys` of one length
  have hlen : (keepLast cap (keepLast cap xs ++ ys)).length = (keepLast cap (xs ++ ys)).length := by
    simp only [length_keepLast, length_append]
    omega
  rw [suffix_iff_eq_drop.mp ((keepLast_suffix cap _).trans hs),
    suffix_iff_eq_drop.mp (keepLast_suffix cap (xs ++ ys)), hlen]

theorem keepLast_map (f : α → β) (xs : List α) :
    keepLast cap (xs.map f) = (keepLast cap xs).map f := by
  rw [keepLast, keepLast, length_map, List.map_drop]

end Octos
