import Mathlib.Data.String.Basic

/-!
# Composite keys and decimal keys

Encodings of structured keys as strings. Components joined by a separator decode uniquely when the
first one is free of the separator; decimals padded with zeros to a common width are ordered as the
numbers they stand for; a text behind its length can be read off whatever its characters are.
-/

namespace Octos

open List Nat

/-! ## Composite keys -/

def NulFree (s : String) : Prop := '\x00' ∉ s.toList

def joinNul (a b : String) : String := a ++ "\x00" ++ b

def stripPrefix (p s : String) : Option String :=
  if p.toList <+: s.toList then some (String.ofList (s.toList.drop p.toList.length)) else none

theorem toList_joinNul (a b : String) : (joinNul a b).toList = a.toList ++ '\x00' :: b.toList := by
  simp [joinNul]

variable {α : Type} {x y : List α}

/-- Two splits of a list at the same element: they are one split, or a piece moved from one side to
the other. -/
theorem append_cons_eq_append_cons_iff {a : α} {l m : List α} :
    x ++ a :: l = y ++ a :: m ↔
      (x = y ∧ l = m) ∨ (∃ k, x = y ++ a :: k ∧ m = k ++ a :: l) ∨
        (∃ k, y = x ++ a :: k ∧ l = k ++ a :: m) := by
  constructor
  · intro h
    rcases append_eq_append_iff.mp h with ⟨k, hy, hk⟩ | ⟨k, hx, hk⟩
    · cases k with
      | nil => exact .inl ⟨by simpa using hy.symm, (cons.inj hk).2⟩
      | cons b k =>
        obtain ⟨rfl, hl⟩ := cons.inj hk
        exact .inr (.inr ⟨k, hy, hl⟩)
    · cases k with
      | nil => exact .inl ⟨by simpa using hx, (cons.inj hk).2.symm⟩
      | cons b k =>
        obtain ⟨rfl, hm⟩ := cons.inj hk
        exact .inr (.inl ⟨k, hx, hm⟩)
  · rintro (⟨rfl, rfl⟩ | ⟨k, rfl, rfl⟩ | ⟨k, rfl, rfl⟩)
    · rfl
    · simp
    · simp

theorem append_cons_inj_left {a : α} {l m : List α} (hx : a ∉ x)
    (hy : a ∉ y) (h : x ++ a :: l = y ++ a :: m) : x = y ∧ l = m := by
  rcases append_cons_eq_append_cons_iff.mp h with heq | ⟨k, rfl, -⟩ | ⟨k, rfl, -⟩
  · exact heq
  · exact absurd (mem_append_right y mem_cons_self) hx
  · exact absurd (mem_append_right x mem_cons_self) hy

/-- The first pair is the second one with a piece of its second component moved over the
separator. -/
def Shifted (sep : Char) (p q : String × String) : Prop :=
  ∃ m, p.1 = q.1 ++ sep.toString ++ m ∧ q.2 = m ++ sep.toString ++ p.2

variable {a b a' b' : String} {sep : Char}

theorem join_eq_join_iff :
    a ++ sep.toString ++ b = a' ++ sep.toString ++ b' ↔
      (a, b) = (a', b') ∨ Shifted sep (a, b) (a', b') ∨ Shifted sep (a', b') (a, b) := by
  have hjoin : ∀ c d : String, (c ++ sep.toString ++ d).toList = c.toList ++ sep :: d.toList := by
    intro c d
    simp [Char.toString]
  have hshift : ∀ c d c' d' : String, Shifted sep (c, d) (c', d') ↔
      ∃ k, c.toList = c'.toList ++ sep :: k ∧ d'.toList = k ++ sep :: d.toList := by
    intro c d c' d'
    constructor
    · rintro ⟨m, hc, hd⟩
      dsimp only at hc hd
      exact ⟨m.toList, by rw [hc, hjoin], by rw [hd, hjoin]⟩
    · rintro ⟨k, hc, hd⟩
      refine ⟨String.ofList k, String.toList_inj.mp ?_, String.toList_inj.mp ?_⟩
      · rw [hjoin, String.toList_ofList]
        exact hc
      · rw [hjoin, String.toList_ofList]
        exact hd
  rw [← String.toList_inj, hjoin, hjoin, append_cons_eq_append_cons_iff, hshift, hshift,
    String.toList_inj, String.toList_inj, Prod.mk.injEq]

theorem joinNul_inj (ha : NulFree a) (ha' : NulFree a') :
    joinNul a b = joinNul a' b' ↔ a = a' ∧ b = b' := by
  constructor
  · intro h
    have hl := congrArg String.toList h
    rw [toList_joinNul, toList_joinNul] at hl
    obtain ⟨h₁, h₂⟩ := append_cons_inj_left ha ha' hl
    exact ⟨String.toList_inj.mp h₁, String.toList_inj.mp h₂⟩
  · rintro ⟨rfl, rfl⟩
    rfl

/-- The prefix `a` with its separator selects the keys with first component `a`, and leaves their
second component. -/
theorem stripPrefix_joinNul (ha : NulFree a) (ha' : NulFree a') :
    stripPrefix (a ++ "\x00") (joinNul a' b) = if a' = a then some b else none := by
  have hp : (a ++ "\x00").toList = a.toList ++ ['\x00'] := by simp
  rw [stripPrefix, hp, toList_joinNul]
  split_ifs with h₁ h₂ h₂
  · subst h₂
    rw [append_cons a'.toList '\x00' b.toList, drop_left, String.ofList_toList]
  · obtain ⟨l, hl⟩ := h₁
    rw [append_assoc, singleton_append] at hl
    exact absurd (String.toList_inj.mp (append_cons_inj_left ha ha' hl).1).symm h₂
  · subst h₂
    exact absurd ⟨b.toList, by simp⟩ h₁
  · rfl

/-! ## Decimal keys -/

/-- `format!("{n:0w}")`: the decimal of `n`, padded with zeros to width `w`. -/
def zeroPad (w n : ℕ) : String := String.ofList ((Nat.toDigits 10 n).leftpad w '0')

/-- `str::parse::<u64>`: an optional sign and at least one digit, with a value in range. -/
def parseU64 (s : String) : Option UInt64 :=
  let ds := match s.toList with
    | '+' :: ds => ds
    | ds => ds
  if ds ≠ [] ∧ ds.all Char.isDigit ∧ Nat.ofDigitChars 10 ds 0 < 2 ^ 64 then
    some (UInt64.ofNat (Nat.ofDigitChars 10 ds 0))
  else none

theorem ofDigitChars_cons_zero (c : Char) (ds : List Char) :
    ofDigitChars 10 (c :: ds) 0 =
      10 ^ ds.length * (c.toNat - '0'.toNat) + ofDigitChars 10 ds 0 := by
  rw [ofDigitChars_cons, ofDigitChars_eq_ofDigitChars_zero]
  simp

variable {c : Char}

theorem isDigit_bounds (h : c.isDigit = true) : '0'.toNat ≤ c.toNat ∧ c.toNat < 58 := by
  simp [Char.isDigit] at h
  have h₁ : (48 : ℕ) ≤ c.val.toNat := h.1
  have h₂ : c.val.toNat ≤ 57 := h.2
  exact ⟨h₁, lt_succ_of_le h₂⟩

theorem ofDigitChars_lt {ds : List Char} (h : ∀ c ∈ ds, c.isDigit = true) :
    ofDigitChars 10 ds 0 < 10 ^ ds.length := by
  induction ds with
  | nil => simp
  | cons c ds ih =>
    have hc := isDigit_bounds (h c mem_cons_self)
    have ih := ih fun d hd => h d (mem_cons_of_mem _ hd)
    have h9 : c.toNat - '0'.toNat ≤ 9 := by
      have : '0'.toNat = 48 := rfl
      omega
    rw [ofDigitChars_cons_zero, length_cons, pow_succ]
    have := mul_le_mul_left (10 ^ ds.length) h9
    omega

theorem digits_lt_iff {ds es : List Char} (hl : ds.length = es.length)
    (hd : ∀ c ∈ ds, c.isDigit = true) (he : ∀ c ∈ es, c.isDigit = true) :
    ds < es ↔ ofDigitChars 10 ds 0 < ofDigitChars 10 es 0 := by
  induction ds generalizing es with
  | nil =>
    rw [length_nil, eq_comm, length_eq_zero_iff] at hl
    simp [hl]
  | cons c ds ih =>
    cases es with
    | nil => cases hl
    | cons e es =>
      have hl : ds.length = es.length := succ.inj hl
      have hd' := fun c hc => hd c (mem_cons_of_mem _ hc)
      have he' := fun c hc => he c (mem_cons_of_mem _ hc)
      have hc := isDigit_bounds (hd c mem_cons_self)
      have hce := isDigit_bounds (he e mem_cons_self)
      have hb := ofDigitChars_lt hd'
      have hb' := ofDigitChars_lt he'
      rw [cons_lt_cons_iff, ih hl hd' he', ofDigitChars_cons_zero, ofDigitChars_cons_zero,
        hl, Char.lt_def, UInt32.lt_iff_toNat_lt]
      rw [hl] at hb
      change c.toNat < e.toNat ∨ _ ↔ _
      -- the leading digits decide, unless they agree
      rcases lt_trichotomy c.toNat e.toNat with h | h | h
      · have hle : (c.toNat - '0'.toNat) + 1 ≤ e.toNat - '0'.toNat := by omega
        have := Nat.mul_le_mul_left (10 ^ es.length) hle
        rw [Nat.mul_add, Nat.mul_one] at this
        exact iff_of_true (.inl h) (by omega)
      · have : c = e := Char.toNat_inj.mp h
        subst this
        simp
      · have hle : (e.toNat - '0'.toNat) + 1 ≤ c.toNat - '0'.toNat := by omega
        have := Nat.mul_le_mul_left (10 ^ es.length) hle
        rw [Nat.mul_add, Nat.mul_one] at this
        refine iff_of_false ?_ (by omega)
        rintro (h' | ⟨rfl, -⟩) <;> omega

theorem toList_zeroPad (w n : ℕ) : (zeroPad w n).toList = (toDigits 10 n).leftpad w '0' :=
  String.toList_ofList

variable {w n m : ℕ}

theorem isDigit_of_mem_zeroPad (h : c ∈ (zeroPad w n).toList) : c.isDigit = true := by
  rw [toList_zeroPad, leftpad, mem_append] at h
  rcases h with h | h
  · rw [(mem_replicate.mp h).2]
    rfl
  · exact isDigit_of_mem_toDigits (by decide) (by decide) h

theorem length_zeroPad (hw : 0 < w) (hn : n < 10 ^ w) : (zeroPad w n).toList.length = w := by
  have hle := (length_toDigits_le_iff (by decide) hw).mpr hn
  rw [toList_zeroPad, leftpad, length_append, length_replicate]
  exact Nat.sub_add_cancel hle

@[simp] theorem ofDigitChars_zeroPad (w n : ℕ) :
    Nat.ofDigitChars 10 (zeroPad w n).toList 0 = n := by
  rw [toList_zeroPad, leftpad, Nat.ofDigitChars_append, Nat.ofDigitChars_replicate_zero,
    Nat.mul_zero, Nat.ofDigitChars_ten_toDigits]

theorem zeroPad_lt_zeroPad (hw : 0 < w) (hn : n < 10 ^ w) (hm : m < 10 ^ w) :
    zeroPad w n < zeroPad w m ↔ n < m := by
  rw [String.lt_iff_toList_lt, digits_lt_iff _ (fun _ => isDigit_of_mem_zeroPad)
    (fun _ => isDigit_of_mem_zeroPad), ofDigitChars_zeroPad, ofDigitChars_zeroPad]
  rw [length_zeroPad hw hn, length_zeroPad hw hm]

theorem zeroPad_inj : zeroPad w n = zeroPad w m ↔ n = m := by
  refine ⟨fun h => ?_, fun h => h ▸ rfl⟩
  rw [← ofDigitChars_zeroPad w n, h, ofDigitChars_zeroPad]

theorem not_mem_toDigits (hsep : sep.isDigit = false) (n : ℕ) : sep ∉ toDigits 10 n := by
  intro hmem
  have hdigit := isDigit_of_mem_toDigits (by decide) (by decide) hmem
  exact absurd hdigit (by simp [hsep])

theorem toDigits_inj (h : toDigits 10 n = toDigits 10 m) : n = m := by
  rw [← @ofDigitChars_ten_toDigits n, h, ofDigitChars_ten_toDigits]

theorem join_decimal_eq_iff (hsep : sep.isDigit = false) :
    a ++ sep.toString ++ toString n = a' ++ sep.toString ++ toString m ↔ a = a' ∧ n = m := by
  have hjoin : ∀ (c : String) (k : ℕ),
      (c ++ sep.toString ++ toString k).toList = c.toList ++ sep :: toDigits 10 k := by
    intro c k
    simp [Char.toString, toString]
  constructor
  · intro h
    rw [← String.toList_inj, hjoin, hjoin, append_cons_eq_append_cons_iff] at h
    -- The decimals have no separator, so no piece can have moved.
    rcases h with ⟨ha, hn⟩ | ⟨k, -, hm⟩ | ⟨k, -, hn⟩
    · exact ⟨String.toList_inj.mp ha, toDigits_inj hn⟩
    · exact absurd (hm ▸ mem_append_right k mem_cons_self) (not_mem_toDigits hsep m)
    · exact absurd (hn ▸ mem_append_right k mem_cons_self) (not_mem_toDigits hsep n)
  · rintro ⟨rfl, rfl⟩
    rfl

theorem parseU64_zeroPad (w : ℕ) (n : UInt64) : parseU64 (zeroPad w n.toNat) = some n := by
  have hd : ∀ c ∈ (zeroPad w n.toNat).toList, c.isDigit = true := fun c => isDigit_of_mem_zeroPad
  have hne : (zeroPad w n.toNat).toList ≠ [] := by
    rw [toList_zeroPad, leftpad]
    exact append_ne_nil_of_right_ne_nil _ toDigits_ne_nil
  have hm : (match (zeroPad w n.toNat).toList with
      | '+' :: ds => ds
      | ds => ds) = (zeroPad w n.toNat).toList := by
    split
    · next ds h =>
      have := hd '+' (h ▸ mem_cons_self)
      cases this
    · rfl
  rw [parseU64]
  simp only [hm, ofDigitChars_zeroPad]
  rw [if_pos ⟨hne, all_eq_true.mpr hd, n.toNat_lt⟩, UInt64.ofNat_toNat]

/-- A text behind its length in bytes. -/
def sized (x : String) : String := toString x.utf8ByteSize ++ ":" ++ x

/-- **A text behind its length can be read off in front of any rest**, whatever its characters. -/
theorem sized_append_inj {x y : String} {s t : List Char}
    (h : (sized x).toList ++ s = (sized y).toList ++ t) : x = y ∧ s = t := by
  have hsized : ∀ (z : String) (r : List Char),
      (sized z).toList ++ r = toDigits 10 z.utf8ByteSize ++
        ':' :: (z ++ String.ofList r).toList := by
    intro z r
    simp [sized, toString]
  rw [hsized, hsized] at h
  obtain ⟨hsize, htext⟩ :=
    append_cons_inj_left (not_mem_toDigits (by decide) _) (not_mem_toDigits (by decide) _) h
  have hbytes := congrArg String.toByteArray (String.toList_inj.mp htext)
  obtain rfl := String.toByteArray_inj.mp (ByteArray.append_inj_left hbytes (toDigits_inj hsize))
  exact ⟨rfl, by simpa using htext⟩

/-- A code whose words can be read off in front of any rest is injective. -/
theorem eq_of_flatMap_eq {β : Type} {f : α → List β} (hne : ∀ a, f a ≠ [])
    (hf : ∀ {a b s t}, f a ++ s = f b ++ t → a = b ∧ s = t) (h : x.flatMap f = y.flatMap f) :
    x = y := by
  induction x generalizing y with
  | nil =>
    cases y with
    | nil => rfl
    | cons b => exact absurd (append_eq_nil_iff.mp h.symm).1 (hne b)
  | cons a x ih =>
    cases y with
    | nil => exact absurd (append_eq_nil_iff.mp h).1 (hne a)
    | cons =>
      obtain ⟨rfl, hrest⟩ := hf h
      rw [ih hrest]

end Octos
