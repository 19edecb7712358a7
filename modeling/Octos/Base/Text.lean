import Mathlib.Algebra.GroupWithZero.Nat
import Mathlib.Data.List.DropRight
import Mathlib.Data.List.Infix

/-!
# Texts as lists of characters

Searching, trimming, cutting and splitting a text, with the lemmas that say how they meet
concatenation at a separator that does not occur in what is searched for.
-/

namespace Octos

open List

abbrev Text := List Char

/-! ## Searching -/

section

variable {α : Type} [DecidableEq α] {pat l a b : List α} {c : α}

/-- The text before and after the first occurrence of a pattern. -/
def splitFirst (pat : List α) : List α → Option (List α × List α)
  | [] => if pat = [] then some ([], []) else none
  | c :: cs =>
    if pat.isPrefixOf (c :: cs) then some ([], (c :: cs).drop pat.length)
    else (splitFirst pat cs).map fun s => (c :: s.1, s.2)

def occurrences (pat : List α) : List α → ℕ
  | [] => if pat = [] then 1 else 0
  | c :: cs => (if pat.isPrefixOf (c :: cs) then 1 else 0) + occurrences pat cs

theorem splitFirst_eq_none_iff : splitFirst pat l = none ↔ ¬ pat <:+: l := by
  induction l with
  | nil => by_cases h : pat = [] <;> simp [splitFirst, h]
  | cons c cs ih =>
    rw [splitFirst, infix_cons_iff, ← List.isPrefixOf_iff_prefix]
    by_cases h : pat.isPrefixOf (c :: cs) = true
    · simp [h]
    · simp [h, ih]

theorem occurrences_eq_zero_iff : occurrences pat l = 0 ↔ ¬ pat <:+: l := by
  induction l with
  | nil => by_cases h : pat = [] <;> simp [occurrences, h]
  | cons c cs ih =>
    rw [occurrences, infix_cons_iff, ← List.isPrefixOf_iff_prefix]
    by_cases h : pat.isPrefixOf (c :: cs) = true
    · simp [h]
    · simp [h, ih]

/-- A search returns the text around an occurrence, and there is none that ends before. -/
theorem splitFirst_eq_some (h : splitFirst pat l = some (a, b)) (hpat : pat ≠ []) :
    l = a ++ pat ++ b ∧ ¬ pat <:+: a := by
  induction l generalizing a with
  | nil => simp [splitFirst, hpat] at h
  | cons c cs ih =>
    rw [splitFirst] at h
    split_ifs at h with hpre
    · obtain ⟨rfl, rfl⟩ := Prod.mk.inj (Option.some.inj h)
      refine ⟨?_, by simpa using hpat⟩
      simpa using (prefix_iff_eq_append.mp (List.isPrefixOf_iff_prefix.mp hpre)).symm
    · obtain ⟨⟨a', b'⟩, hs, heq⟩ := Option.map_eq_some_iff.mp h
      obtain ⟨rfl, rfl⟩ := Prod.mk.inj heq
      obtain ⟨hcs, hfree⟩ := ih hs
      refine ⟨by rw [hcs]; simp, ?_⟩
      rw [infix_cons_iff, not_or]
      refine ⟨fun hc => hpre (List.isPrefixOf_iff_prefix.mpr ?_), hfree⟩
      refine hc.trans ?_
      rw [hcs]
      exact ⟨pat ++ b', by simp⟩

theorem splitFirst_append_self (hpat : pat ≠ []) (b : List α) :
    splitFirst pat (pat ++ b) = some ([], b) := by
  cases pat with
  | nil => exact absurd rfl hpat
  | cons c pat =>
    have hpre : (c :: pat).isPrefixOf (c :: (pat ++ b)) = true :=
      List.isPrefixOf_iff_prefix.mpr ⟨b, rfl⟩
    rw [cons_append, splitFirst, if_pos hpre]
    simp

theorem isPrefixOf_append_cons (hc : c ∉ pat) (a b : List α) :
    pat.isPrefixOf (a ++ c :: b) = pat.isPrefixOf a := by
  induction a generalizing pat with
  | nil =>
    cases pat with
    | nil => simp
    | cons d pat =>
      have hne : d ≠ c := fun h => hc (h ▸ mem_cons_self)
      simp [List.isPrefixOf, hne]
  | cons d a ih =>
    cases pat with
    | nil => simp
    | cons e pat => simp [List.isPrefixOf, ih fun h => hc (mem_cons_of_mem e h)]

theorem isPrefixOf_nil (hpat : pat ≠ []) : pat.isPrefixOf [] = false := by
  cases pat with
  | nil => exact absurd rfl hpat
  | cons d pat => rfl

section

variable (hc : c ∉ pat) (hpat : pat ≠ [])
include hc hpat

theorem occurrences_append_cons (a b : List α) :
    occurrences pat (a ++ c :: b) = occurrences pat a + occurrences pat b := by
  induction a with
  | nil =>
    have hpre := isPrefixOf_append_cons hc [] b
    rw [nil_append] at hpre ⊢
    simp [occurrences, hpre, isPrefixOf_nil hpat, hpat]
  | cons d a ih =>
    have hpre := isPrefixOf_append_cons hc (d :: a) b
    rw [cons_append] at hpre ⊢
    rw [occurrences, occurrences, hpre, ih, Nat.add_assoc]

theorem occurrences_cons (b : List α) :
    occurrences pat (c :: b) = occurrences pat b := by
  have h := occurrences_append_cons hc hpat [] b
  simpa [occurrences, hpat] using h

theorem splitFirst_append_cons (ha : ¬ pat <:+: a) (b : List α) :
    splitFirst pat (a ++ c :: b) = (splitFirst pat b).map fun s => (a ++ c :: s.1, s.2) := by
  induction a with
  | nil =>
    have hpre := isPrefixOf_append_cons hc [] b
    rw [nil_append] at hpre ⊢
    rw [splitFirst, hpre, isPrefixOf_nil hpat]
    rfl
  | cons d a ih =>
    rw [infix_cons_iff, not_or, ← List.isPrefixOf_iff_prefix] at ha
    have hpre := isPrefixOf_append_cons hc (d :: a) b
    rw [cons_append] at hpre ⊢
    rw [splitFirst, hpre, if_neg ha.1, ih ha.2, Option.map_map]
    rfl

end

end

/-! ## White space -/

/-- The characters with the property White_Space. -/
def isSpace (c : Char) : Bool :=
  (0x9 ≤ c.toNat ∧ c.toNat ≤ 0xd) ∨ (0x2000 ≤ c.toNat ∧ c.toNat ≤ 0x200a) ∨
    c.toNat ∈ [0x20, 0x85, 0xa0, 0x1680, 0x2028, 0x2029, 0x202f, 0x205f, 0x3000]

def isControl (c : Char) : Bool := c.toNat < 0x20 ∨ (0x7f ≤ c.toNat ∧ c.toNat ≤ 0x9f)

variable (l : List Char)

def trimStart : List Char := l.dropWhile isSpace

def trimEnd : List Char := l.rdropWhile isSpace

def trim : List Char := trimEnd (trimStart l)

/-- No white space at the ends. -/
def Trimmed : Prop :=
  (∀ c ∈ l.head?, isSpace c = false) ∧ ∀ c ∈ l.getLast?, isSpace c = false

theorem trimEnd_eq_self {l : List Char} (h : ∀ c ∈ l.getLast?, isSpace c = false) :
    trimEnd l = l := by
  refine rdropWhile_eq_self_iff.mpr fun hne => ?_
  have hlast := h (l.getLast hne) (getLast?_eq_some_getLast hne)
  simp [hlast]

theorem trimEnd_append_space {l : List Char} {c : Char} (hc : isSpace c = true) :
    trimEnd (l ++ [c]) = trimEnd l := by
  simp [trimEnd, rdropWhile_concat_pos _ _ _ hc]

theorem trim_isInfix : trim l <:+: l :=
  (List.rdropWhile_prefix ..).isInfix.trans (dropWhile_suffix _).isInfix

theorem getLast?_trimEnd : ∀ c ∈ (trimEnd l).getLast?, isSpace c = false := by
  intro c hc
  have hne : trimEnd l ≠ [] := by
    rintro hnil
    rw [hnil] at hc
    cases hc
  have hlast := rdropWhile_last_not isSpace l hne
  rw [getLast?_eq_some_getLast hne] at hc
  cases hc
  exact Bool.eq_false_iff.mpr hlast

theorem trimmed_trim : Trimmed (trim l) := by
  refine ⟨?_, getLast?_trimEnd _⟩
  intro c hc
  obtain ⟨t, ht⟩ : trimEnd (trimStart l) <+: trimStart l := List.rdropWhile_prefix ..
  have hhead : (trimStart l).head? = some c := by
    rw [← ht, head?_append]
    rw [show (trimEnd (trimStart l)).head? = some c from hc]
    rfl
  have hnot := head?_dropWhile_not isSpace l
  rw [show (l.dropWhile isSpace).head? = some c from hhead] at hnot
  exact hnot

/-! ## Bytes -/

def utf8Len : ℕ := (l.map Char.utf8Size).sum

def takeBytes : ℕ → List Char → List Char
  | _, [] => []
  | n, c :: cs => if c.utf8Size ≤ n then c :: takeBytes (n - c.utf8Size) cs else []

/-- What follows after some bytes of a text, if they end between characters. -/
def dropBytes : ℕ → List Char → Option (List Char)
  | 0, l => some l
  | _ + 1, [] => none
  | n + 1, c :: cs => if c.utf8Size ≤ n + 1 then dropBytes (n + 1 - c.utf8Size) cs else none

/-- At most some bytes of a text, cut between characters, and a suffix if that is not all. -/
def truncateUtf8 (maxLen : ℕ) (suffix : List Char) : List Char :=
  if utf8Len l ≤ maxLen then l else takeBytes maxLen l ++ suffix

theorem takeBytes_isPrefix (n : ℕ) (l : List Char) : takeBytes n l <+: l := by
  induction l generalizing n with
  | nil => exact prefix_rfl
  | cons c cs ih =>
    rw [takeBytes]
    split_ifs
    · exact (prefix_cons_inj c).mpr (ih _)
    · exact List.nil_prefix

theorem utf8Len_append (a b : List Char) : utf8Len (a ++ b) = utf8Len a + utf8Len b := by
  simp [utf8Len]

/-- The lines of a text: a line feed ends a line, with a carriage return before it, and what follows
the last one is a line if it is not empty. -/
def lines : List Char → List (List Char)
  | [] => []
  | '\r' :: '\n' :: cs => [] :: lines cs
  | c :: cs =>
    if c = '\n' then [] :: lines cs
    else match lines cs with
      | [] => [[c]]
      | l :: ls => (c :: l) :: ls

def joinLines : List (List Char) → List Char
  | [] => []
  | [l] => l
  | l :: l' :: ls => l ++ '\n' :: joinLines (l' :: ls)

theorem not_infix_joinLines {pat : List Char} (hpat : pat ≠ []) (hc : '\n' ∉ pat)
    {ls : List (List Char)} (h : ∀ l ∈ ls, ¬ pat <:+: l) : ¬ pat <:+: joinLines ls := by
  induction ls with
  | nil => simpa [joinLines] using hpat
  | cons l ls ih =>
    cases ls with
    | nil => exact h l mem_cons_self
    | cons l' ls =>
      have hl := occurrences_eq_zero_iff.mpr (h l mem_cons_self)
      have hls := occurrences_eq_zero_iff.mpr (ih fun r hr => h r (mem_cons_of_mem l hr))
      rw [joinLines, ← occurrences_eq_zero_iff, occurrences_append_cons hc hpat, hl, hls]

end Octos
