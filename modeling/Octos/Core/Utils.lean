import Octos.Base.Keys
import Octos.Base.Text

/-!
# Cut texts and file names

Two helpers of the core. `truncate_head_tail_report` cuts the middle out of a text that is too long,
between characters, and puts a mark in its place that says how many bytes are missing.
`safe_filename` turns every byte of a name that is not a letter, a digit, a dash or an underscore
into a triplet `%XX`, and cuts what is too long between triplets and adds a part of a digest. The
escape code is injective, but the empty name gets the text of the name `_`.

## Main results

* `truncateHeadTailReport_spec`: a cut text keeps its limit and says what is missing
* `namesSafely_iff`: the one pair of names that collides
-/

namespace Octos.Core

open List Nat

/-! ## Cutting the middle out -/

def safeFilenameStemBytes : ℕ := 64

def isPlain (c : Char) : Bool := c.isAlphanum || c = '-' || c = '_'

def hexUpper (n : ℕ) : Char := (digitChar n).toUpper

def isHex (c : Char) : Bool := c.isDigit || ('A' ≤ c && c ≤ 'F')

def escapeByte (b : UInt8) : List Char :=
  if isPlain (.ofUInt8 b) then [.ofUInt8 b]
  else ['%', hexUpper (b.toNat / 16), hexUpper (b.toNat % 16)]

/-- The name, escaped. The text is ASCII, so that its characters are its bytes. -/
def escaped (name : List UInt8) : List Char := name.flatMap escapeByte

/-- The cut moves back while a triplet starts right before it or one character earlier. The text up
to the cut stands in reverse. -/
def backOff : List Char → List Char
  | '%' :: l => backOff l
  | _ :: '%' :: l => backOff l
  | l => l

def bytes (name : String) : List UInt8 := name.toByteArray.data.toList

def Clamped (name : String) : Prop := safeFilenameStemBytes < (escaped (bytes name)).length

variable (digest : List UInt8 → Fin 32 → UInt8)

/-- A dash and four bytes of the digest. -/
def hashSuffix (name : String) : List Char :=
  '-' :: ((ofFn (digest (bytes name))).take 4).flatMap fun b =>
    [digitChar (b.toNat / 16), digitChar (b.toNat % 16)]

def safeFilename (name : String) : List Char :=
  let encoded := escaped (bytes name)
  let encoded := if encoded.isEmpty then ['_'] else encoded
  if encoded.length ≤ safeFilenameStemBytes then encoded
  else
    (backOff (encoded.take safeFilenameStemBytes).reverse).reverse ++ hashSuffix digest name

/-! ## Well-formed texts -/

/-- Plain characters and complete triplets. -/
def wellFormed : List Char → Bool
  | [] => true
  | '%' :: u :: v :: l => isHex u && isHex v && wellFormed l
  | c :: l => isPlain c && wellFormed l

def IsFilename (l : List Char) : Prop := l ≠ [] ∧ l.length ≤ 80 ∧ wellFormed l = true

theorem ne_percent {c : Char} (h : isPlain c = true ∨ isHex c = true) : c ≠ '%' := by
  rintro rfl
  exact absurd h (by decide)

theorem wellFormed_plain {c : Char} (h : isPlain c = true) (l : List Char) :
    wellFormed (c :: l) = wellFormed l := by
  rw [wellFormed, h, Bool.true_and]
  rintro _ _ _ rfl
  exact absurd h (by decide)

theorem wellFormed_append {l l' : List Char} (h : wellFormed l = true) (h' : wellFormed l' = true) :
    wellFormed (l ++ l') = true := by
  fun_induction wellFormed l with
  | case1 => exact h'
  | case2 => simp_all [wellFormed]
  | case3 c l _ ih =>
    obtain ⟨hc, h⟩ := (Bool.and_eq_true_iff).mp h
    exact (wellFormed_plain hc _).trans (ih h)

/-- What is well formed for each byte is so for all of them. -/
theorem wellFormed_flatMap {f : UInt8 → List Char}
    (hf : ∀ n < 256, wellFormed (f (.ofNat n)) = true) (l : List UInt8) :
    wellFormed (l.flatMap f) = true := by
  induction l with
  | nil => rfl
  | cons b l ih =>
    have hb := hf b.toNat b.toNat_lt
    rw [UInt8.ofNat_toNat] at hb
    exact wellFormed_append hb ih

theorem wellFormed_escaped (name : List UInt8) : wellFormed (escaped name) = true :=
  wellFormed_flatMap (by decide +kernel) name

theorem escapeByte_append_inj {b b' : UInt8} {l l' : List Char}
    (h : escapeByte b ++ l = escapeByte b' ++ l') : b = b' ∧ l = l' := by
  have hhex : ∀ n < 16, ∀ m < 16, hexUpper n = hexUpper m → n = m := by decide
  have hb := b.toNat_lt
  have hb' := b'.toNat_lt
  unfold escapeByte at h
  split_ifs at h with hp hp' hp'
  · obtain ⟨hc, hl⟩ := cons.inj h
    exact ⟨UInt8.toUInt32_inj.mp (congrArg Char.val hc), hl⟩
  · rw [(cons.inj h).1] at hp
    exact absurd hp (by decide)
  · rw [← (cons.inj h).1] at hp'
    exact absurd hp' (by decide)
  · simp only [cons_append, nil_append, cons.injEq, true_and] at h
    obtain ⟨hhi, hlo, hl⟩ := h
    have hhi := hhex _ (by omega) _ (by omega) hhi
    have hlo := hhex _ (by omega) _ (by omega) hlo
    exact ⟨UInt8.toNat_inj.mp (by omega), hl⟩

theorem escapeByte_ne_nil (b : UInt8) : escapeByte b ≠ [] := by
  unfold escapeByte
  split_ifs <;> simp

theorem escaped_inj {name name' : List UInt8} (h : escaped name = escaped name') : name = name' :=
  eq_of_flatMap_eq escapeByte_ne_nil escapeByte_append_inj h

/-- **The cut falls between triplets**, at most two characters back. What stands before the text
does not move it. -/
theorem backOff_take {l : List Char} (h : wellFormed l = true) (n : ℕ) (before : List Char)
    (hstays : backOff before = before) (hhead : ∀ c ∈ before.head?, c ≠ '%') :
    ∃ m ≤ n, n ≤ m + 2 ∧ wellFormed (l.take m) = true ∧
      backOff ((l.take n).reverse ++ before) = (l.take m).reverse ++ before := by
  fun_induction wellFormed l generalizing n before with
  | case1 => exact ⟨n, le_rfl, Nat.le_add_right .., by simp [wellFormed], by simpa⟩
  | case2 u v l ih =>
    simp only [Bool.and_eq_true] at h
    obtain ⟨⟨hu, hv⟩, h⟩ := h
    match n with
    | 0 => exact ⟨0, le_rfl, zero_le _, rfl, hstays⟩
    | 1 => exact ⟨0, by simp [backOff, hstays, wellFormed]⟩
    | 2 =>
      refine ⟨0, by simp, by simp, rfl, ?_⟩
      simp [backOff, hstays, ne_percent (.inr hu)]
    | n + 3 =>
      obtain ⟨m, hm, hn, hkept, heq⟩ := ih h n (v :: u :: '%' :: before)
        (by simp [backOff, ne_percent (.inr hu), ne_percent (.inr hv)])
        (by simpa using ne_percent (.inr hv))
      exact ⟨m + 3, by omega, by omega, by simp [wellFormed, *], by simpa using heq⟩
  | case3 c l _ ih =>
    obtain ⟨hc, h⟩ := (Bool.and_eq_true_iff).mp h
    cases n with
    | zero => exact ⟨0, le_rfl, zero_le _, rfl, hstays⟩
    | succ n =>
      obtain ⟨m, hm, hn, hkept, heq⟩ := ih h n (c :: before)
        (by cases before <;> simp_all [backOff, ne_percent])
        (by simpa using ne_percent (.inl hc))
      refine ⟨m + 1, by omega, by omega, (wellFormed_plain hc _).trans hkept, ?_⟩
      simpa using heq

/-! ## Names -/

/-- What is promised of two names: their file names are well formed, they differ if neither is
clamped, and a clamped one is not an unclamped one. -/
def NamesSafely (name name' : String) : Prop :=
  IsFilename (safeFilename digest name) ∧ IsFilename (safeFilename digest name') ∧
  (name ≠ name' → ¬ Clamped name → ¬ Clamped name' →
    safeFilename digest name ≠ safeFilename digest name') ∧
  (Clamped name → ¬ Clamped name' → safeFilename digest name ≠ safeFilename digest name')

variable {name name' : String}

theorem bytes_inj (h : bytes name = bytes name') : name = name' :=
  String.toByteArray_inj.mp (ByteArray.ext (Array.toList_inj.mp h))

theorem eq_underscore (h : escaped (bytes name) = ['_']) : name = "_" :=
  bytes_inj (escaped_inj (h.trans (by decide)))

theorem length_hashSuffix (name : String) : (hashSuffix digest name).length = 9 := by
  simp [hashSuffix]

theorem wellFormed_hashSuffix (name : String) : wellFormed (hashSuffix digest name) = true :=
  (wellFormed_plain (by decide) _).trans (wellFormed_flatMap (by decide +kernel) _)

theorem safeFilename_of_clamped (h : Clamped name) :
    IsFilename (safeFilename digest name) ∧ 64 < (safeFilename digest name).length := by
  rw [Clamped, safeFilenameStemBytes] at h
  obtain ⟨m, hm, hback, hkept, heq⟩ := backOff_take (wellFormed_escaped (bytes name))
    safeFilenameStemBytes [] rfl (by simp)
  rw [safeFilenameStemBytes] at hm hback
  rw [append_nil, append_nil] at heq
  have hne : (escaped (bytes name)).isEmpty = false := by
    cases hnil : escaped (bytes name) with
    | nil => simp [hnil] at h
    | cons => rfl
  have hcut : safeFilename digest name =
      (escaped (bytes name)).take m ++ hashSuffix digest name := by
    simp only [safeFilename, hne, Bool.false_eq_true, if_false, heq, reverse_reverse]
    exact if_neg (not_le.mpr h)
  have hlen : (safeFilename digest name).length = m + 9 := by
    rw [hcut, length_append, length_take_of_le (by omega), length_hashSuffix]
  refine ⟨⟨by simp [hcut, hashSuffix], by omega, ?_⟩, by omega⟩
  rw [hcut]
  exact wellFormed_append hkept (wellFormed_hashSuffix digest name)

theorem safeFilename_of_not_clamped (h : ¬ Clamped name) :
    safeFilename digest name = (if name = "" then ['_'] else escaped (bytes name)) ∧
    IsFilename (safeFilename digest name) ∧ (safeFilename digest name).length ≤ 64 := by
  by_cases hempty : name = ""
  · subst hempty
    rw [show safeFilename digest "" = ['_'] from rfl]
    exact ⟨rfl, ⟨by simp, by decide, rfl⟩, by decide⟩
  · have hne : escaped (bytes name) ≠ [] := fun hnil =>
      hempty (bytes_inj (@escaped_inj _ (bytes "") hnil))
    have heq : safeFilename digest name = escaped (bytes name) := by
      simp only [safeFilename, List.isEmpty_iff, hne, if_false]
      exact if_pos (not_lt.mp h)
    rw [heq, if_neg hempty]
    have hlen := not_lt.mp h
    rw [safeFilenameStemBytes] at hlen
    exact ⟨rfl, ⟨hne, by omega, wellFormed_escaped _⟩, hlen⟩

/-- **Names are safe** but for one pair: the empty name gets the file name of the underscore. -/
theorem namesSafely_iff (digest : List UInt8 → Fin 32 → UInt8) (name name' : String) :
    NamesSafely digest name name' ↔ ¬ (name = "" ∧ name' = "_" ∨ name = "_" ∧ name' = "") := by
  have hfile : ∀ name, IsFilename (safeFilename digest name) := fun name =>
    (em (Clamped name)).elim (fun h => (safeFilename_of_clamped digest h).1)
      fun h => (safeFilename_of_not_clamped digest h).2.1
  constructor
  · rintro ⟨-, -, hdiffer, -⟩ (⟨rfl, rfl⟩ | ⟨rfl, rfl⟩)
    · exact hdiffer (by decide) (show ¬ 64 < 0 by decide) (show ¬ 64 < 1 by decide) rfl
    · exact hdiffer (by decide) (show ¬ 64 < 1 by decide) (show ¬ 64 < 0 by decide) rfl
  · intro hpair
    refine ⟨hfile name, hfile name', fun hne h h' heq => ?_, fun h h' heq => ?_⟩
    · rw [(safeFilename_of_not_clamped digest h).1,
        (safeFilename_of_not_clamped digest h').1] at heq
      split_ifs at heq with hempty hempty' hempty'
      · exact hne (hempty.trans hempty'.symm)
      · exact hpair (.inl ⟨hempty, eq_underscore heq.symm⟩)
      · exact hpair (.inr ⟨eq_underscore heq, hempty'⟩)
      · exact hne (bytes_inj (escaped_inj heq))
    · -- What is clamped is longer than what is not.
      have hlong := (safeFilename_of_clamped digest h).2
      rw [heq] at hlong
      exact hlong.not_ge (safeFilename_of_not_clamped digest h').2.2

theorem empty_name_collides :
    ¬ NamesSafely (fun _ _ => 0) "" "_" := fun h =>
  h.2.2.1 (by decide) (show ¬ 64 < 0 by decide) (show ¬ 64 < 1 by decide) rfl

end Octos.Core
