import Octos.Redaction.Values

/-!
# Redacted values reveal nothing

Two values that differ only in leaves under credential-named keys are redacted to the same value.
There is one exception, from the reading of arrays as command lines: a differing element can be a
bare secret flag in one value and not in the other, and a string after it that is a JSON document is
then replaced as a whole in the one and redacted inside in the other
(`flag_shows_through_document`). Where no document stands there, nothing shows through
(`redactSecretsInValue_eq_of_agree`).
-/

namespace Octos.Redaction

open List Option Value

variable {ν : Type} (R : Redactor ν)

/-- A leaf that may differ. -/
def IsSecretLeaf : Value ν → Prop
  | .num _ | .bool _ => True
  | .str text =>
    isExemptSecretValue (containsSecret R.charCase) text = false ∧ authSchemeEnd text = none ∧
      parseEmbeddedJson R text = none
  | _ => False

/-- The values agree but for leaves under credential-named keys; `secret` says that they are under
such a key themselves, and `adjacent` is asked of every pair of arrays. -/
inductive Agree (adjacent : List (Value ν) → List (Value ν) → Prop) :
    Bool → Value ν → Value ν → Prop
  | same (secret : Bool) (v : Value ν) : Agree adjacent secret v v
  | leaf (v w : Value ν) (hv : IsSecretLeaf R v) (hw : IsSecretLeaf R w) : Agree adjacent true v w
  | arr (secret : Bool) (vs ws : List (Value ν)) (hlength : vs.length = ws.length)
      (hitems : ∀ (i : ℕ) (v w : Value ν), vs[i]? = some v → ws[i]? = some w →
        Agree adjacent secret v w)
      (hadjacent : adjacent vs ws) : Agree adjacent secret (.arr vs) (.arr ws)
  | obj (secret : Bool) (fs gs : List (Text × Value ν)) (hkeys : fs.map Prod.fst = gs.map Prod.fst)
      (hfields : ∀ (i : ℕ) (f g : Text × Value ν), fs[i]? = some f → gs[i]? = some g →
        Agree adjacent (secret || isSecretKeyName R.charCase f.1) f.2 g.2) :
      Agree adjacent secret (.obj fs) (.obj gs)

/-- After an element that is a bare secret flag in one array and not in the other, there is no
string that is a JSON document. -/
def NoDocumentAfterFlag (vs ws : List (Value ν)) : Prop :=
  ∀ (i : ℕ) (v w : Value ν) (text : Text), vs[i]? = some v → ws[i]? = some w →
    isFlagItem R v ≠ isFlagItem R w → vs[i + 1]? = some (.str text) →
      parseEmbeddedJson R text = none

variable {R} {v : Value ν} {w : Value ν}

theorem Agree.mono {adjacent : List (Value ν) → List (Value ν) → Prop} {secret : Bool}
    (h : Agree R adjacent secret v w) : Agree R adjacent true v w := by
  induction h with
  | same secret v => exact .same true v
  | leaf v w hv hw => exact .leaf v w hv hw
  | arr secret vs ws hlength _ hadjacent ih => exact .arr true vs ws hlength ih hadjacent
  | obj secret fs gs hkeys _ ih =>
    refine .obj true fs gs hkeys fun i f g hf hg => ?_
    exact ih i f g hf hg

/-! ## Leaves -/

variable {text : Text}

theorem redactString_of_not_document [DecidableEq ν] (embedded : Option (Value ν → Value ν))
    (h : parseEmbeddedJson R text = none) :
    redactString R embedded true text = secretString R text := by
  unfold redactString
  by_cases hkept : (text.isEmpty || text == redactedPlaceholder) = true
  · rw [if_pos hkept]
    -- Empty strings and the placeholder are exempt.
    have hexempt : isExemptSecretValue (containsSecret R.charCase) text = true := by
      simp only [Bool.or_eq_true] at hkept
      simp only [isExemptSecretValue, isTriviallyNonSecret, Bool.or_eq_true]
      exact .inl (.inl (.inl hkept))
    rw [secretString, redactSecretString, if_pos hexempt]
  · rw [if_neg hkept, h]
    cases embedded with
    | none => rfl
    | some => rfl

theorem secretString_leaf (h : IsSecretLeaf R (.str text)) :
    secretString R text = redactedPlaceholder := by
  obtain ⟨hexempt, hscheme, -⟩ := h
  rw [secretString, redactSecretString, hexempt, hscheme]
  rfl

variable (levels : ℕ)

theorem redactValue_str [DecidableEq ν] (h : parseEmbeddedJson R text = none) :
    redactValue R levels true (.str text) = .str (secretString R text) := by
  cases levels with
  | zero | succ => exact congrArg str (redactString_of_not_document _ h)

theorem redactValue_leaf [DecidableEq ν] (h : IsSecretLeaf R v) :
    redactValue R levels true v = placeholder := by
  cases v with
  | num | bool => cases levels <;> rfl
  | str => rw [redactValue_str levels h.2.2, secretString_leaf h, placeholder]
  | null | arr | obj => cases h

/-! ## Arrays -/

/-- What becomes of an item, after a flag or not. -/
def redactItem (R : Redactor ν) (redact : Bool → Value ν → Value ν) (underSecret : Bool) :
    Bool → Value ν → Value ν
  | false, item => redact underSecret item
  | true, item =>
    match item with
    | .str text =>
      if text.head? = some '-' then redact underSecret item else .str (secretString R text)
    | _ => redact true item

theorem isFlagItem_str (h : text.head? ≠ some '-') : isFlagItem R (.str text) = false := by
  have hhead : (text.head? == some '-') = false := by simpa using h
  rw [isFlagItem, isBareSecretFlag, hhead, Bool.false_and, Bool.false_and]

theorem redactItems_cons (redact : Bool → Value ν → Value ν) (underSecret follows : Bool)
    (item : Value ν)
    (items : List (Value ν)) :
    redactItems R redact underSecret follows (item :: items) =
      redactItem R redact underSecret follows item ::
        redactItems R redact underSecret (isFlagItem R item) items := by
  cases follows with
  | false => rfl
  | true =>
    cases item with
    | str text =>
      by_cases hdash : text.head? = some '-'
      · simp [redactItems, redactItem, if_pos hdash]
      · simp [redactItems, redactItem, if_neg hdash, isFlagItem_str hdash]
    | null | bool | num | arr | obj => rfl

section

variable {adjacent : List (Value ν) → List (Value ν) → Prop} {redact : Bool → Value ν → Value ν}

theorem redactItem_leaf (hredact : ∀ v, IsSecretLeaf R v → redact true v = placeholder)
    (h : IsSecretLeaf R v) (follows : Bool) : redactItem R redact true follows v = placeholder := by
  cases follows with
  | false => exact hredact v h
  | true =>
    cases v with
    | str =>
      rw [redactItem]
      split_ifs
      · exact hredact _ h
      · rw [secretString_leaf h, placeholder]
    | num | bool => exact hredact _ h
    | null | arr | obj => cases h

theorem redactItem_eq_redact
    (hstr : ∀ text, parseEmbeddedJson R text = none →
      redact true (.str text) = .str (secretString R text))
    (h : ∀ text, v = .str text → parseEmbeddedJson R text = none) (follows : Bool) :
    redactItem R redact true follows v = redact true v := by
  cases follows with
  | false => rfl
  | true =>
    cases v with
    | str text =>
      rw [redactItem]
      split_ifs
      · rfl
      · exact (hstr text (h text rfl)).symm
    | null | bool | num | arr | obj => rfl

variable {secret : Bool}

theorem redactItem_agree {w : Value ν} (h : Agree R adjacent secret v w)
    (hredact : ∀ secret, Agree R adjacent secret v w → redact secret v = redact secret w)
    (hleaf : ∀ v, IsSecretLeaf R v → redact true v = placeholder) (follows : Bool) :
    redactItem R redact secret follows v = redactItem R redact secret follows w := by
  cases follows with
  | false => exact hredact secret h
  | true =>
    cases h with
    | same => rfl
    | leaf _ _ hv hw => rw [redactItem_leaf hleaf hv, redactItem_leaf hleaf hw]
    | arr _ vs ws hlength hitems hadjacent =>
      exact hredact true (Agree.mono (.arr _ _ _ hlength hitems hadjacent))
    | obj _ fs gs hkeys hfields => exact hredact true (Agree.mono (.obj _ _ _ hkeys hfields))

theorem Agree.secret_of_flag_ne {w : Value ν} (h : Agree R adjacent secret v w)
    (hne : isFlagItem R v ≠ isFlagItem R w) : secret = true := by
  cases h with
  | same | arr | obj => exact absurd rfl hne
  | leaf => rfl

theorem redactItems_agree {vs ws : List (Value ν)} (hlength : vs.length = ws.length)
    (hitems : ∀ (i : ℕ) (v w : Value ν), vs[i]? = some v → ws[i]? = some w →
      Agree R adjacent secret v w)
    (hadjacent : NoDocumentAfterFlag R vs ws)
    (hredact : ∀ v ∈ vs, ∀ w secret, Agree R adjacent secret v w →
      redact secret v = redact secret w)
    (hleaf : ∀ v, IsSecretLeaf R v → redact true v = placeholder)
    (hstr : ∀ text, parseEmbeddedJson R text = none →
      redact true (.str text) = .str (secretString R text))
    (follows follows' : Bool) (hfollows : follows ≠ follows' → secret = true ∧
      ∀ text, vs.head? = some (.str text) → parseEmbeddedJson R text = none) :
    redactItems R redact secret follows vs = redactItems R redact secret follows' ws := by
  induction vs generalizing ws follows follows' with
  | nil =>
    obtain rfl : ws = [] := length_eq_zero_iff.mp hlength.symm
    cases follows <;> cases follows' <;> rfl
  | cons v vs ih =>
    obtain ⟨w, ws, rfl⟩ := exists_cons_of_length_eq_add_one hlength.symm
    have hvw : Agree R adjacent secret v w := hitems 0 v w rfl rfl
    have hv : ∀ secret, Agree R adjacent secret v w → redact secret v = redact secret w :=
      hredact v mem_cons_self w
    rw [redactItems_cons, redactItems_cons]
    congr 1
    · by_cases hsame : follows = follows'
      · rw [hsame]
        exact redactItem_agree hvw hv hleaf follows'
      · -- The flags differ, so the array is under a credential-named key and this is no document.
        obtain ⟨rfl, hdocument⟩ := hfollows hsame
        have hflag : ∀ f, redactItem R redact true f v = redact true v :=
          redactItem_eq_redact hstr fun text htext => hdocument text (congrArg some htext)
        rw [hflag follows, ← hflag follows']
        exact redactItem_agree hvw hv hleaf follows'
    · refine ih (Nat.succ.inj hlength) (fun i => hitems (i + 1)) (fun i => hadjacent (i + 1))
        (fun u hu => hredact u (mem_cons_of_mem v hu)) _ _ fun hne => ?_
      refine ⟨hvw.secret_of_flag_ne hne, fun text htext => ?_⟩
      rw [head?_eq_getElem?] at htext
      exact hadjacent 0 v w text rfl rfl hne htext

end

/-! ## Values -/

theorem depth_le_of_mem_items {vs : List (Value ν)} (h : v ∈ vs) : v.depth ≤ itemsDepth vs := by
  induction vs with
  | nil => cases h
  | cons u vs ih =>
    rcases mem_cons.mp h with rfl | h
    · exact le_max_left ..
    · exact (ih h).trans (le_max_right ..)

theorem depth_le_of_mem_fields {f : Text × Value ν} {fs : List (Text × Value ν)} (h : f ∈ fs) :
    f.2.depth ≤ fieldsDepth fs := by
  induction fs with
  | nil => cases h
  | cons g fs ih =>
    rcases mem_cons.mp h with rfl | h
    · exact le_max_left ..
    · exact (ih h).trans (le_max_right ..)

theorem redactValue_eq_of_agree [DecidableEq ν] {levels : ℕ} {secret : Bool}
    (h : Agree R (NoDocumentAfterFlag R) secret v w) (hdepth : v.depth ≤ levels) :
    redactValue R levels secret v = redactValue R levels secret w := by
  -- On the levels, which bound the depth, so that a container is always walked.
  induction levels generalizing secret v w with
  | zero =>
    cases h with
    | same => rfl
    | leaf _ _ hv hw => rw [redactValue_leaf 0 hv, redactValue_leaf 0 hw]
    | arr | obj => exact absurd hdepth (Nat.not_succ_le_zero _)
  | succ levels ih =>
    cases h with
    | same => rfl
    | leaf _ _ hv hw => rw [redactValue_leaf _ hv, redactValue_leaf _ hw]
    | arr _ vs ws hlength hitems hadjacent =>
      rw [depth] at hdepth
      refine congrArg arr (redactItems_agree hlength hitems hadjacent ?_
        (fun v hv => redactValue_leaf levels hv) (fun text => redactValue_str levels) false false
        fun hne => absurd rfl hne)
      intro u hu w secret hagree
      have hle := depth_le_of_mem_items hu
      exact ih hagree (by omega)
    | obj _ fs gs hkeys hfields =>
      rw [depth] at hdepth
      refine congrArg obj (ext_getElem? fun i => ?_)
      rw [getElem?_map, getElem?_map]
      have hlength : fs.length = gs.length := by simpa using congrArg List.length hkeys
      rcases lt_or_ge i fs.length with hi | hi
      · -- The fields at the same position have the same key, and values that agree.
        have hf : fs[i]? = some fs[i] := getElem?_eq_getElem hi
        have hg : gs[i]? = some gs[i] := getElem?_eq_getElem (hlength ▸ hi)
        have hkey : fs[i].1 = gs[i].1 := by
          have hmap := congrArg (fun keys => keys[i]?) hkeys
          simpa [hf, hg] using hmap
        have hle := depth_le_of_mem_fields (getElem_mem hi)
        have hvalue := ih (hfields i _ _ hf hg) (by omega)
        rw [hf, hg, map_some, map_some, hvalue, hkey]
      · rw [getElem?_eq_none hi, getElem?_eq_none (hlength ▸ hi)]

/-- **Redacted values reveal nothing.** Values of at most 60 levels that agree but for leaves under
credential-named keys are redacted to the same, if no document stands after an element of an array
that is a bare secret flag in one of them only. -/
theorem redactSecretsInValue_eq_of_agree [DecidableEq ν] (R : Redactor ν) (v w : Value ν)
    (hdepth : v.depth ≤ 60) (h : Agree R (NoDocumentAfterFlag R) false v w) :
    redactSecretsInValue R v = redactSecretsInValue R w :=
  redactValue_eq_of_agree h (hdepth.trans (by decide))

/-- JSON as far as the array with the string `a`, and what redaction makes of it, need it. -/
def oneDocument : Redactor ℕ where
  parse text := if text = "[\"a\"]".toList then some (.arr [.str "a".toList]) else none
  render _ := "[\"[REDACTED]\"]".toList
  charCase := .ascii

/-- A command line under a credential-named key: an element and then a document. -/
def commandLine (element : String) : Value ℕ :=
  .obj [("secret".toList, .arr [.str element.toList, .str "[\"a\"]".toList])]

def commandLineEnd : Value ℕ → Option Text
  | .obj [(_, .arr [_, .str text])] => some text
  | _ => none

/-- A user with an array of two passwords. -/
def userWith (first second : Value ℕ) : Value ℕ :=
  .obj [("user".toList, .str "eve".toList), ("password".toList, .arr [first, second])]

/-- A flag and a text behind it are redacted to the same as a number and a switch. -/
theorem redactSecretsInValue_passwords :
    redactSecretsInValue oneDocument (userWith (.str "--token".toList) (.str "abc".toList)) =
      redactSecretsInValue oneDocument (userWith (.num 5) (.bool true)) := by
  refine redactSecretsInValue_eq_of_agree oneDocument _ _ (by decide) (.obj false _ _ rfl ?_)
  rintro (_ | _ | i) f g hf hg
  · obtain rfl := some.inj hf
    obtain rfl := some.inj hg
    exact .same ..
  · obtain rfl := some.inj hf
    obtain rfl := some.inj hg
    refine .arr _ _ _ rfl ?_ ?_
    · rintro (_ | _ | i) v w hv hw
      · obtain rfl := some.inj hv
        obtain rfl := some.inj hw
        exact .leaf _ _ ⟨by decide +kernel, by decide +kernel, rfl⟩ trivial
      · obtain rfl := some.inj hv
        obtain rfl := some.inj hw
        exact .leaf _ _ ⟨by decide +kernel, by decide +kernel, rfl⟩ trivial
      · cases hv
    · rintro (_ | i) v w text - - - htext
      · obtain rfl := str.inj (some.inj htext)
        decide +kernel
      · cases htext
  · cases hf

theorem commandLine_agree :
    Agree oneDocument (fun _ _ => True) false (commandLine "--token") (commandLine "abc") := by
  refine .obj false _ _ rfl ?_
  rintro (_ | i) f g hf hg
  · obtain rfl := some.inj hf
    obtain rfl := some.inj hg
    refine .arr _ _ _ rfl ?_ trivial
    rintro (_ | _ | i) v w hv hw
    · obtain rfl := some.inj hv
      obtain rfl := some.inj hw
      exact .leaf _ _ ⟨by decide +kernel, by decide +kernel, rfl⟩
        ⟨by decide +kernel, by decide +kernel, rfl⟩
    · obtain rfl := some.inj hv
      obtain rfl := some.inj hw
      exact .same ..
    · cases hv
  · cases hf

/-- **A flag shows through a document.** The two command lines differ in a leaf under a
credential-named key; after the one that is a flag the document is replaced as a whole, after the
other it is redacted inside. -/
theorem flag_shows_through_document :
    Agree oneDocument (fun _ _ => True) false (commandLine "--token") (commandLine "abc") ∧
      redactSecretsInValue oneDocument (commandLine "--token") ≠
        redactSecretsInValue oneDocument (commandLine "abc") := by
  refine ⟨commandLine_agree, fun h => ?_⟩
  have hdocument : commandLineEnd (redactSecretsInValue oneDocument (commandLine "--token")) ≠
      commandLineEnd (redactSecretsInValue oneDocument (commandLine "abc")) := by decide +kernel
  exact hdocument (congrArg commandLineEnd h)

end Octos.Redaction
