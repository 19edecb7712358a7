import Octos.Base.Checked
import Octos.Tools.Hunks

/-!
# Unified diffs

`apply_hunks`: the hunks of a unified diff are applied from the bottom of the file to the top, so
that the line numbers of the hunks above stay valid. A hunk is searched at its line and up to three
lines around it, in the text as the hunks below have left it. So a hunk may be applied to lines that
another one has written; it is applied to the file exactly when the search finds it in the file
above the replaced blocks before it finds it in what has been written.

## Main results

* `applyHunks_original_iff`: a diff is applied to the file exactly in a clear run
* `applyHunks_clear_of_spaced`: hunks that are declared six lines apart
-/

namespace Octos.Tools

open List UInt64

/-! ## The loop -/

/-- A hunk of a unified diff: the line at which it starts in the file, from 1, and its body. -/
structure Hunk where
  oldStart : UInt64
  lines : List DiffLine

/-- Why a diff was not applied, with what the message shows. -/
inductive DiffError
  | overlapping (earlier later : ℕ)
  | noPattern (hunkNo : ℕ)
  | notFound (line : ℕ) (expected : List Text)
  | outOfBounds (line : ℕ)

/-- The line of a hunk, from 0. A hunk that says 0 starts at the first line too. -/
def Hunk.target (h : Hunk) : ℕ := h.oldStart.toNat - 1

/-- How far around its line a hunk is searched. -/
def fuzzyRange : ℕ := 3

/-- The lines that are tried, in order: the line itself, then one further above and one further
below. The distances are added to the line as a signed number, so a line close to the largest one
wraps around to the start of the file. -/
def searchOrder (ls : List Text) (target : ℕ) : List ℕ :=
  target :: (List.range' 1 fuzzyRange).flatMap fun offset =>
    let above := (target + size - offset) % size
    let below := (target + offset) % size
    -- A negative number is one from the middle of the range on.
    (if above < size / 2 then [above] else []) ++ if below < ls.length then [below] else []

def findMatch (ls pattern : List Text) (target : ℕ) : Except DiffError ℕ :=
  -- The end of the block wraps around into the file, and its first line is out of bounds.
  if size ≤ target + pattern.length ∧
      target + pattern.length - size ≤ ls.length then throw (.outOfBounds target)
  else
    match (searchOrder ls target).find? (matchesAt ls pattern) with
    | some pos => pure pos
    | none => throw (.notFound (target + 1) (pattern.take 3))

/-- The hunks with their places in the diff, the last line first. -/
def sortHunks (hunks : List Hunk) : List (Hunk × ℕ) :=
  hunks.zipIdx.mergeSort fun a b => b.1.oldStart ≤ a.1.oldStart

/-- No declared block ends after the start of the next. -/
def checkOverlaps : List (Hunk × ℕ) → Except DiffError Unit
  | later :: earlier :: rest =>
    let earlierEnd :=
      (earlier.1.oldStart.toNat + (patternLines earlier.1.lines).length) % size
    if earlierEnd > later.1.oldStart.toNat then
      throw (.overlapping earlier.1.oldStart.toNat later.1.oldStart.toNat)
    else checkOverlaps (earlier :: rest)
  | _ => pure ()

def applySorted (ls : List Text) : List (Hunk × ℕ) → Except DiffError (List Text)
  | [] => pure ls
  | (hunk, idx) :: hunks => do
    let pattern := patternLines hunk.lines
    if pattern.isEmpty then throw (.noPattern (idx + 1))
    let pos ← findMatch ls pattern hunk.target
    let stop := min (pos + pattern.length) ls.length
    applySorted (splice ls pos (stop - pos) (replacementLines hunk.lines)) hunks

def applyHunks (content : Text) (hunks : List Hunk) : Except DiffError Text := do
  let sorted := sortHunks hunks
  checkOverlaps sorted
  let ls ← applySorted (lines content) sorted
  pure (renderLines (endsWithNewline content) ls)

/-! ## What a run has matched -/

/-- A hunk at a line of the file, as a block and its new lines. -/
def hunkBlock (q : ℕ × Hunk) : Replacement Text := bodyBlock q.1 q.2.lines

/-- The lines at which the hunks are matched, each in the text that the ones before have left. -/
inductive Matched : List Text → List (Hunk × ℕ) → List (ℕ × Hunk) → List Text → Prop
  | nil (ls : List Text) : Matched ls [] [] ls
  | cons {ls out : List Text} {hunk : Hunk} {idx pos : ℕ} {hunks : List (Hunk × ℕ)}
      {places : List (ℕ × Hunk)} (hne : patternLines hunk.lines ≠ [])
      (hfind : findMatch ls (patternLines hunk.lines) hunk.target = .ok pos)
      (hrest : Matched (splice ls pos (patternLines hunk.lines).length
        (replacementLines hunk.lines)) hunks places out) :
      Matched ls ((hunk, idx) :: hunks) ((pos, hunk) :: places) out

section

variable {ls xs out pattern : List Text} {target pos bound : ℕ} {hunks : List (Hunk × ℕ)}
  {places : List (ℕ × Hunk)}

theorem findMatch_eq_ok (h : findMatch ls pattern target = .ok pos) :
    (searchOrder ls target).find? (matchesAt ls pattern) = some pos := by
  rw [findMatch] at h
  split_ifs at h
  cases hfind : (searchOrder ls target).find? (matchesAt ls pattern) with
  | none =>
    rw [hfind] at h
    cases h
  | some p =>
    rw [hfind] at h
    cases h
    rfl

theorem matchesAt_of_findMatch (h : findMatch ls pattern target = .ok pos) :
    matchesAt ls pattern pos = true :=
  find?_some (findMatch_eq_ok h)

theorem applySorted_matched (h : applySorted ls hunks = .ok out) :
    ∃ places, Matched ls hunks places out := by
  induction hunks generalizing ls with
  | nil =>
    cases h
    exact ⟨[], .nil _⟩
  | cons q hunks ih =>
    obtain ⟨hunk, idx⟩ := q
    rw [applySorted] at h
    by_cases hne : (patternLines hunk.lines).isEmpty = true
    · rw [if_pos hne] at h
      cases h
    rw [if_neg hne] at h
    obtain ⟨pos, hfind, h⟩ := bind_eq_ok.mp h
    -- A match ends within the file, so that the end is not cut.
    have hlen := (matchesAt_iff.mp (matchesAt_of_findMatch hfind)).1
    simp only [Nat.min_eq_left hlen, Nat.add_sub_cancel_left] at h
    obtain ⟨places, hrest⟩ := ih h
    exact ⟨(pos, hunk) :: places, .cons (by simpa using hne) hfind hrest⟩

theorem Matched.hunks_eq (h : Matched ls hunks places out) :
    places.map Prod.snd = hunks.map Prod.fst := by
  induction h with
  | nil => rfl
  | cons _ _ _ ih => exact congrArg (_ :: ·) ih

/-! ## One replacement of blocks -/

/-- A line is at most three lines away from that of a hunk. -/
def Near (q : ℕ × Hunk) : Prop := q.1 ≤ q.2.target + fuzzyRange ∧ q.2.target ≤ q.1 + fuzzyRange

/-- The places of the hunks from bottom to top, each wholly above the one before. -/
def Descending (bound : ℕ) : List (ℕ × Hunk) → Prop
  | [] => True
  | q :: places => (hunkBlock q).stop ≤ bound ∧ Descending q.1 places

theorem descending_iff_inOrder :
    Descending bound places ↔ InOrder 0 bound (places.reverse.map hunkBlock) := by
  induction places generalizing bound with
  | nil => exact iff_of_true trivial (Nat.zero_le _)
  | cons q places ih =>
    rw [reverse_cons, map_append, map_singleton, inOrder_concat, Descending, ih]
    exact and_comm

/-- **Hunks that are matched from bottom to top replace blocks of the file.** The text of the loop
is the file with the blocks from `bound` on replaced. -/
theorem Matched.replaceFrom_eq {rs : List (Replacement Text)} (hrs : InOrder bound xs.length rs)
    (h : Matched ls hunks places out) (hls : ls = replaceFrom xs 0 rs)
    (hdesc : Descending bound places) :
    (∀ q ∈ places, Covers xs q.1 q.2.lines) ∧
      out = replaceFrom xs 0 (places.reverse.map hunkBlock ++ rs) := by
  induction h generalizing bound rs with
  | nil => exact ⟨by simp, by simpa using hls⟩
  | @cons ls out hunk idx pos hunks places hne hfind hrest ih =>
    obtain ⟨hstop, hdesc⟩ := hdesc
    -- Above `bound` the text is still that of the file, so the block is one of the file.
    have htake : ls.take bound = xs.take bound := by
      rw [hls, take_replaceFrom hrs]
    have hcovers := (matchesAt_iff.mp (matchesAt_of_take_eq htake hstop
      (matchesAt_of_findMatch hfind))).2
    have hrs' : InOrder (hunkBlock (pos, hunk)).stop xs.length rs := hrs.mono hstop
    have hnext : splice ls pos (patternLines hunk.lines).length (replacementLines hunk.lines) =
        replaceFrom xs 0 (hunkBlock (pos, hunk) :: rs) := by
      rw [hls]
      exact splice_replaceFrom (hunkBlock (pos, hunk)) hrs'
    have hin : InOrder pos xs.length (hunkBlock (pos, hunk) :: rs) := ⟨Nat.le_refl _, hrs'⟩
    obtain ⟨hall, hout⟩ := ih hin hnext hdesc
    refine ⟨forall_mem_cons.mpr ⟨hcovers, hall⟩, ?_⟩
    rw [hout, reverse_cons, map_append, append_assoc]
    rfl

end

/-- The diff as one replacement of blocks of the file: each hunk is matched at a block of the file,
at most three lines away from its line and the same as its context and removed lines; the blocks are
disjoint and in the order of the lines of the hunks; and the lines of the result are those of the
file with all blocks replaced. The places are listed from bottom to top, and what is matched there
is the block of the file and no line that another hunk has written. -/
structure AppliedToOriginal (content : Text) (hunks : List Hunk) (out : Text)
    (places : List (ℕ × Hunk)) : Prop where
  matched : ∃ ls, Matched (lines content) (sortHunks hunks) places ls
  perm : (places.map Prod.snd).Perm hunks
  sorted : places.Pairwise fun q r => r.2.oldStart ≤ q.2.oldStart
  near : ∀ q ∈ places, Near q
  covers : ∀ q ∈ places, Covers (lines content) q.1 q.2.lines
  inOrder : InOrder 0 (lines content).length (places.reverse.map hunkBlock)
  out_eq : out = renderLines (endsWithNewline content)
    (replaceFrom (lines content) 0 (places.reverse.map hunkBlock))

/-! ## Clear runs -/

instance decidableNear (q : ℕ × Hunk) : Decidable (Near q) := inferInstanceAs (Decidable (_ ∧ _))

/-- A hunk matches the file at a line near its own, wholly above `bound`. -/
def fits (file : List Text) (bound : ℕ) (hunk : Hunk) (pos : ℕ) : Bool :=
  matchesAt (file.take bound) (patternLines hunk.lines) pos && decide (Near (pos, hunk))

/-- With the blocks `rs` of the file replaced, all from `bound` on: of the lines that the search of
a hunk tries before the first at which it fits above `bound`, none matches. So no match that reaches
into the replaced text, or lies at the other end of the file, comes first. -/
def Clear (file : List Text) (bound : ℕ) (rs : List (Replacement Text)) (hunk : Hunk) : Prop :=
  ∀ c ∈ (searchOrder (replaceFrom file 0 rs) hunk.target).takeWhile fun c =>
    !fits file bound hunk c,
    matchesAt (replaceFrom file 0 rs) (patternLines hunk.lines) c = false

/-- Every hunk is clear, from the bottom up: where it fits the file first is the next block. -/
def ClearRun (file : List Text) (bound : ℕ) (rs : List (Replacement Text)) : List (Hunk × ℕ) → Prop
  | [] => True
  | (hunk, _) :: hunks => Clear file bound rs hunk ∧
    ∀ pos ∈ (searchOrder (replaceFrom file 0 rs) hunk.target).find? (fits file bound hunk),
      ClearRun file pos (hunkBlock (pos, hunk) :: rs) hunks

section

variable {file ls out : List Text} {bound pos : ℕ} {hunk : Hunk} {hunks : List (Hunk × ℕ)}
  {places : List (ℕ × Hunk)} {rs : List (Replacement Text)}

theorem fits_iff (h : ls.take bound = file.take bound) (hb : bound ≤ file.length) :
    fits file bound hunk pos = true ↔ matchesAt ls (patternLines hunk.lines) pos = true ∧
      (hunkBlock (pos, hunk)).stop ≤ bound ∧ Near (pos, hunk) := by
  have htake : (file.take bound).take bound = ls.take bound := by
    rw [take_take, Nat.min_self, h]
  rw [fits, Bool.and_eq_true, decide_eq_true_iff]
  constructor
  · rintro ⟨hm, hnear⟩
    have hstop := (matchesAt_iff.mp hm).1
    rw [length_take_of_le hb] at hstop
    exact ⟨matchesAt_of_take_eq htake hstop hm, hstop, hnear⟩
  · rintro ⟨hm, hstop, hnear⟩
    exact ⟨matchesAt_of_take_eq htake.symm hstop hm, hnear⟩

/-- What is matched first is the first that fits, or the hunk is not clear. -/
theorem clear_iff (hrs : InOrder bound file.length rs)
    (h : findMatch (replaceFrom file 0 rs) (patternLines hunk.lines) hunk.target = .ok pos) :
    (Clear file bound rs hunk ↔ fits file bound hunk pos = true) ∧
      (fits file bound hunk pos = true →
        (searchOrder (replaceFrom file 0 rs) hunk.target).find? (fits file bound hunk) =
          some pos) := by
  obtain ⟨hmatch, tried, rest, horder, htried⟩ :=
    find?_eq_some_iff_append.mp (findMatch_eq_ok h)
  have hskip : ∀ c ∈ tried, (!fits file bound hunk c) = true := by
    intro c hc
    rw [Bool.not_eq_true', Bool.eq_false_iff]
    intro hfits
    have hno := htried c hc
    rw [((fits_iff (take_replaceFrom hrs) hrs.le).mp hfits).1] at hno
    cases hno
  refine ⟨?_, fun hfits => find?_eq_some_iff_append.mpr ⟨hfits, tried, rest, horder, hskip⟩⟩
  rw [Clear, horder, takeWhile_append_of_pos hskip, forall_mem_append]
  cases hfits : fits file bound hunk pos with
  | true => simpa [hfits] using htried
  | false => simp [hfits, hmatch]

/-- **The hunks are matched from bottom to top exactly in a clear run.** -/
theorem clearRun_iff (h : Matched ls hunks places out) (hrs : InOrder bound file.length rs)
    (hls : ls = replaceFrom file 0 rs) :
    ClearRun file bound rs hunks ↔ Descending bound places ∧ ∀ q ∈ places, Near q := by
  induction h generalizing bound rs with
  | nil => simp [ClearRun, Descending]
  | @cons ls out hunk idx pos hunks places hne hfind hrest ih =>
    subst hls
    obtain ⟨hclear, hfirst⟩ := clear_iff hrs hfind
    have hfits : fits file bound hunk pos = true ↔ _ := fits_iff (take_replaceFrom hrs) hrs.le
    rw [ClearRun, hclear, Descending, forall_mem_cons]
    -- The rest of the run, once this hunk fits.
    have hrun : (hunkBlock (pos, hunk)).stop ≤ bound →
        (ClearRun file pos (hunkBlock (pos, hunk) :: rs) hunks ↔
          Descending pos places ∧ ∀ q ∈ places, Near q) := fun hstop =>
      ih ⟨Nat.le_refl _, hrs.mono hstop⟩
        (splice_replaceFrom (hunkBlock (pos, hunk)) (hrs.mono hstop))
    constructor
    · rintro ⟨hpos, hnext⟩
      obtain ⟨-, hstop, hnear⟩ := hfits.mp hpos
      obtain ⟨hdesc, hall⟩ := (hrun hstop).mp (hnext pos (hfirst hpos))
      exact ⟨⟨hstop, hdesc⟩, hnear, hall⟩
    · rintro ⟨⟨hstop, hdesc⟩, hnear, hall⟩
      have hpos := hfits.mpr ⟨matchesAt_of_findMatch hfind, hstop, hnear⟩
      refine ⟨hpos, fun pos' hpos' => ?_⟩
      obtain rfl : pos = pos' := Option.some.inj ((hfirst hpos).symm.trans hpos')
      exact (hrun hstop).mpr ⟨hdesc, hall⟩

theorem near_of_mem_searchOrder {c : ℕ} (hw : hunk.target + fuzzyRange < size)
    (hc : c ∈ searchOrder ls hunk.target) : Near (c, hunk) := by
  have hsize : size = 18446744073709551616 := rfl
  rw [hsize, fuzzyRange] at hw
  rw [Near, fuzzyRange]
  rcases mem_cons.mp hc with rfl | hc
  · exact ⟨Nat.le_add_right .., Nat.le_add_right ..⟩
  obtain ⟨offset, hoffset, hc⟩ := mem_flatMap.mp hc
  have hrange := mem_range'_1.mp hoffset
  rw [fuzzyRange] at hrange
  simp only [mem_append, hsize] at hc
  rcases hc with hc | hc
  · split_ifs at hc with habove
    · rw [mem_singleton] at hc
      simp only
      omega
    · exact absurd hc not_mem_nil
  · split_ifs at hc with hbelow
    · rw [mem_singleton] at hc
      simp only
      omega
    · exact absurd hc not_mem_nil

/-- The declared blocks are at least twice the range of the search apart, and no line is close to
the largest one. -/
def Spaced (hunks : List (Hunk × ℕ)) : Prop :=
  (∀ q ∈ hunks, q.1.target + fuzzyRange < size) ∧
    hunks.IsChain fun later earlier =>
      earlier.1.target + (patternLines earlier.1.lines).length + 2 * fuzzyRange ≤ later.1.target

theorem descending_of_spaced (h : Matched ls hunks places out) (hspaced : Spaced hunks)
    (hhead : ∀ q ∈ hunks.head?, ∀ pos, Near (pos, q.1) →
      (hunkBlock (pos, q.1)).stop ≤ ls.length → (hunkBlock (pos, q.1)).stop ≤ bound) :
    Descending bound places ∧ ∀ q ∈ places, Near q := by
  induction h generalizing bound with
  | nil => simp [Descending]
  | @cons ls out hunk idx pos hunks places hne hfind hrest ih =>
    have hnear : Near (pos, hunk) :=
      near_of_mem_searchOrder (hspaced.1 _ mem_cons_self)
        (mem_of_find?_eq_some (findMatch_eq_ok hfind))
    have hlen := (matchesAt_iff.mp (matchesAt_of_findMatch hfind)).1
    have hstop := hhead (hunk, idx) rfl pos hnear hlen
    have hrest' := @ih pos ⟨fun q hq => hspaced.1 q (mem_cons_of_mem _ hq), hspaced.2.of_cons⟩ ?_
    · exact ⟨⟨hstop, hrest'.1⟩, forall_mem_cons.mpr ⟨hnear, hrest'.2⟩⟩
    · -- Both searches may drift, so the gap is twice the range.
      intro q hq pos' hnear' _
      obtain ⟨hunks', rfl⟩ := head?_eq_some_iff.mp hq
      have hgap := (isChain_cons_cons.mp hspaced.2).1
      simp only [Near, hunkBlock, bodyBlock, Replacement.stop, fuzzyRange] at *
      omega

end

/-! ## The whole diff -/

theorem sortHunks_sorted (hunks : List Hunk) :
    ((sortHunks hunks).map Prod.fst).Pairwise fun h h' => h'.oldStart ≤ h.oldStart := by
  rw [pairwise_map]
  have h : (sortHunks hunks).Pairwise fun a b => decide (b.1.oldStart ≤ a.1.oldStart) = true := by
    refine pairwise_mergeSort ?_ ?_ hunks.zipIdx
    · intro a b c hab hbc
      rw [decide_eq_true_iff] at hab hbc ⊢
      exact UInt64.le_trans hbc hab
    · intro a b
      rw [Bool.or_eq_true, decide_eq_true_iff, decide_eq_true_iff]
      exact UInt64.le_total ..
  exact h.imp fun hab => of_decide_eq_true hab

theorem sortHunks_perm (hunks : List Hunk) : ((sortHunks hunks).map Prod.fst).Perm hunks := by
  have h := (mergeSort_perm hunks.zipIdx
    fun a b => decide (b.1.oldStart ≤ a.1.oldStart)).map Prod.fst
  rwa [zipIdx_map_fst] at h

/-- **A diff is applied to the file exactly in a clear run.** -/
theorem applyHunks_original_iff {content out : Text} {hunks : List Hunk}
    (h : applyHunks content hunks = .ok out) :
    (∃ places, AppliedToOriginal content hunks out places) ↔
      ClearRun (lines content) (lines content).length [] (sortHunks hunks) := by
  obtain ⟨_, _, h⟩ := bind_eq_ok.mp h
  obtain ⟨ls, hls, h⟩ := bind_eq_ok.mp h
  cases h
  obtain ⟨places, hmatched⟩ := applySorted_matched hls
  -- Nothing is replaced at first.
  have hstart : InOrder (lines content).length (lines content).length
      ([] : List (Replacement Text)) := Nat.le_refl _
  constructor
  · rintro ⟨places', happ⟩
    obtain ⟨ls', hmatched'⟩ := happ.matched
    exact (clearRun_iff hmatched' hstart rfl).mpr
      ⟨descending_iff_inOrder.mpr happ.inOrder, happ.near⟩
  · intro hclear
    obtain ⟨hdesc, hnear⟩ := (clearRun_iff hmatched hstart rfl).mp hclear
    obtain ⟨hcovers, hout⟩ := hmatched.replaceFrom_eq hstart rfl hdesc
    rw [append_nil] at hout
    refine ⟨places, ⟨ls, hmatched⟩, ?_, ?_, hnear, hcovers, descending_iff_inOrder.mp hdesc, ?_⟩
    · rw [hmatched.hunks_eq]
      exact sortHunks_perm hunks
    · rw [← @List.pairwise_map _ _ Prod.snd (fun h h' : Hunk => h'.oldStart ≤ h.oldStart),
        hmatched.hunks_eq]
      exact sortHunks_sorted hunks
    · rw [hout]

/-- **A diff whose hunks are declared six lines apart is applied in a clear run.** -/
theorem applyHunks_clear_of_spaced {content out : Text} {hunks : List Hunk}
    (h : applyHunks content hunks = .ok out) (hspaced : Spaced (sortHunks hunks)) :
    ClearRun (lines content) (lines content).length [] (sortHunks hunks) := by
  obtain ⟨_, -, h⟩ := bind_eq_ok.mp h
  obtain ⟨ls, hls, -⟩ := bind_eq_ok.mp h
  obtain ⟨places, hmatched⟩ := applySorted_matched hls
  refine (clearRun_iff hmatched (Nat.le_refl _) rfl).mpr ?_
  exact descending_of_spaced hmatched hspaced fun _ _ _ _ hlen => hlen

theorem applyHunks_clear_of_spaced_drifted :
    ClearRun (lines ('a' :: replicate 8 '\n' ++ ['c', '\n'])) 9 []
      (sortHunks [⟨8, [.remove ['c']]⟩, ⟨1, [.context ['a']]⟩]) := by
  refine applyHunks_clear_of_spaced (?_ : _ = Except.ok ('a' :: replicate 8 '\n')) ?_
  · rw [applyHunks, sortHunks, mergeSort_of_pairwise (by decide)]
    rfl
  · rw [sortHunks, mergeSort_of_pairwise (by decide)]
    exact ⟨by decide, by decide⟩

instance decidableClearRun (file : List Text) : ∀ bound rs hunks,
    Decidable (ClearRun file bound rs hunks)
  | _, _, [] => inferInstanceAs (Decidable True)
  | bound, rs, (hunk, _) :: hunks =>
    have : Decidable (Clear file bound rs hunk) := inferInstanceAs (Decidable (∀ c ∈ _, _))
    have := fun pos => decidableClearRun file pos (hunkBlock (pos, hunk) :: rs) hunks
    inferInstanceAs (Decidable (_ ∧ ∀ pos ∈ _, _))

/-- The lower hunk writes a line that the upper one would match too, but the upper one is found in
the file first. -/
theorem applyHunks_original_iff_inPlace :
    ∃ places, AppliedToOriginal ['a', '\n', 'b', '\n']
      [⟨2, [.remove ['b'], .add ['a']]⟩, ⟨1, [.remove ['a'], .add ['c']]⟩] ['c', '\n', 'a', '\n']
      places := by
  refine (applyHunks_original_iff ?_).mpr ?_
  · rw [applyHunks, sortHunks, mergeSort_of_pairwise (by decide)]
    rfl
  · rw [sortHunks, mergeSort_of_pairwise (by decide)]
    decide

/-- The second hunk is matched at the line that the first has inserted: no line of the file is its
pattern. -/
theorem insertedLine_matched :
    applyHunks ['a', '\n', 'b', '\n']
        [⟨2, [.remove ['b'], .add ['x']]⟩, ⟨1, [.remove ['x'], .add ['y']]⟩] =
      .ok ['a', '\n', 'y', '\n'] ∧
    ¬ ∃ places, AppliedToOriginal ['a', '\n', 'b', '\n']
        [⟨2, [.remove ['b'], .add ['x']]⟩, ⟨1, [.remove ['x'], .add ['y']]⟩]
        ['a', '\n', 'y', '\n'] places := by
  constructor
  · rw [applyHunks, sortHunks, mergeSort_of_pairwise (by decide)]
    rfl
  · rintro ⟨places, happ⟩
    obtain ⟨q, hq, hhunk⟩ := mem_map.mp (happ.perm.mem_iff.mpr
      (mem_cons_of_mem _ mem_cons_self))
    have hcovers := happ.covers q hq
    rw [hhunk] at hcovers
    have hnone : ∀ p, ¬ Covers [['a'], ['b']] p [.remove ['x'], .add ['y']] := by
      intro p h
      rcases p with _ | _ | p
      · exact absurd h (by decide)
      · exact absurd h (by decide)
      · exact absurd (congrArg List.length h) (by simp [patternLines, DiffLine.pattern?])
    exact hnone q.1 hcovers

end Octos.Tools
