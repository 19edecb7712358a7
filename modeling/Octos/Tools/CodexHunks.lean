import Octos.Base.Checked
import Octos.Tools.Hunks

/-!
# Update hunks of a patch

`apply_codex_hunks`: the hunks of an update section are applied one after another to the lines of
the file. Each is located at or after the end of the one before, an anchor moves the search further,
and a hunk at the end of the file is pinned there. The result has the lines of the file outside the
blocks, and in each block the context and added lines as the patch writes them.

## Main results

* `applyCodexHunks_blocks`: the hunks replace disjoint blocks of the file
-/

namespace Octos.Tools

open List Nat

/-! ## The loop -/

structure UpdateHunk where
  anchor : Option Text
  lines : List DiffLine
  atEof : Bool

/-- Why a hunk was not applied, with what the message shows. -/
inductive HunkError
  | anchorNotFound (hunkNo : ℕ) (anchor : Text) (searchedFrom : ℕ)
  | noContext (hunkNo : ℕ)
  | notFound (hunkNo searchedFrom : ℕ) (preview : List Text)

/-- The lines as edited so far, and where the last hunk has ended. -/
structure Edit where
  lines : List Text
  cursor : ℕ

/-- The first position of a range that passes a test. -/
def findIn (lo hi : ℕ) (test : ℕ → Bool) : Option ℕ := (List.range' lo (hi - lo)).find? test

/-- The line of an anchor at or after the cursor, if need be without regard to its indentation. -/
def anchorPos (s : Edit) (anchor : Text) : Option ℕ :=
  (findIn s.cursor s.lines.length fun i => trimEnd (s.lines.getD i []) == trimEnd anchor).or
    (findIn s.cursor s.lines.length fun i => trim (s.lines.getD i []) == trim anchor)

/-- The cursor after the anchor of a hunk. -/
def seekAnchor (hunkNo : ℕ) (s : Edit) : Option Text → Except HunkError ℕ
  | none => pure s.cursor
  | some anchor =>
    match anchorPos s anchor with
    | some pos => pure (pos + 1)
    | none => throw (.anchorNotFound hunkNo anchor (s.cursor + 1))

def findBlockFrom (ls pattern : List Text) (lo : ℕ) : Option ℕ :=
  if pattern.isEmpty || pattern.length > ls.length then none
  else findIn lo (ls.length - pattern.length + 1) (matchesAt ls pattern)

def insertPos (hunkNo : ℕ) (hunk : UpdateHunk) (ls : List Text) (cursor : ℕ) :
    Except HunkError ℕ :=
  if hunk.atEof then pure ls.length
  else if hunk.anchor.isSome then pure cursor
  else if ls.isEmpty then pure 0
  else throw (.noContext hunkNo)

def matchPos (hunk : UpdateHunk) (pattern ls : List Text) (cursor : ℕ) : Option ℕ :=
  if hunk.atEof then
    -- `checked_sub`: no position if the pattern is longer than the file.
    (if pattern.length ≤ ls.length then some (ls.length - pattern.length) else none).filter
      fun pos => decide (cursor ≤ pos) && matchesAt ls pattern pos
  else findBlockFrom ls pattern cursor

/-- One round of the loop. -/
def applyCodexHunk (hunkNo : ℕ) (hunk : UpdateHunk) (s : Edit) : Except HunkError Edit := do
  let cursor ← seekAnchor hunkNo s hunk.anchor
  let pattern := patternLines hunk.lines
  let replacement := replacementLines hunk.lines
  if pattern.isEmpty then
    let insertAt ← insertPos hunkNo hunk s.lines cursor
    pure ⟨splice s.lines insertAt 0 replacement, insertAt + replacement.length⟩
  else
    match matchPos hunk pattern s.lines cursor with
    | none => throw (.notFound hunkNo (cursor + 1) (pattern.take 3))
    | some pos => pure ⟨splice s.lines pos pattern.length replacement, pos + replacement.length⟩

def applyFrom (hunkNo : ℕ) (s : Edit) : List UpdateHunk → Except HunkError (List Text)
  | [] => pure s.lines
  | hunk :: hunks => do
    let s' ← applyCodexHunk hunkNo hunk s
    applyFrom (hunkNo + 1) s' hunks

def applyCodexHunks (content : Text) (hunks : List UpdateHunk) : Except HunkError Text := do
  let ls ← applyFrom 1 ⟨lines content, 0⟩ hunks
  pure (renderLines (endsWithNewline content) ls)

/-! ## Where a hunk is applied -/

section

variable {ls pattern : List Text} {lo hi cursor i pos hunkNo : ℕ} {test : ℕ → Bool}
  {hunk : UpdateHunk} {s s' : Edit}

theorem findIn_eq_some (h : findIn lo hi test = some i) : lo ≤ i ∧ i < hi ∧ test i = true := by
  have hmem := mem_range'_1.mp (mem_of_find?_eq_some h)
  have htest := find?_some h
  exact ⟨hmem.1, by omega, htest⟩

theorem anchorPos_eq_some {anchor : Text} (h : anchorPos s anchor = some pos) :
    s.cursor ≤ pos ∧ pos < s.lines.length := by
  rw [anchorPos, Option.or_eq_some_iff] at h
  rcases h with h | ⟨_, h⟩ <;> exact ⟨(findIn_eq_some h).1, (findIn_eq_some h).2.1⟩

theorem seekAnchor_eq_ok {anchor : Option Text} (hs : s.cursor ≤ s.lines.length)
    (h : seekAnchor hunkNo s anchor = .ok cursor) :
    s.cursor ≤ cursor ∧ cursor ≤ s.lines.length := by
  cases anchor with
  | none =>
    cases h
    exact ⟨le_refl _, hs⟩
  | some anchor =>
    rw [seekAnchor] at h
    cases hpos : anchorPos s anchor with
    | none =>
      rw [hpos] at h
      cases h
    | some pos =>
      rw [hpos] at h
      cases h
      have := anchorPos_eq_some hpos
      omega

theorem insertPos_eq_ok (hc : cursor ≤ ls.length) (h : insertPos hunkNo hunk ls cursor = .ok pos) :
    cursor ≤ pos ∧ pos ≤ ls.length := by
  rw [insertPos] at h
  split_ifs at h with heof hanchor hempty
  · cases h
    exact ⟨hc, le_refl _⟩
  · cases h
    exact ⟨le_refl _, hc⟩
  · cases h
    -- An empty file leaves no other place for the cursor.
    rw [List.isEmpty_iff] at hempty
    rw [hempty] at hc ⊢
    exact ⟨hc, le_refl _⟩

theorem matchPos_eq_some (h : matchPos hunk pattern ls cursor = some pos) :
    cursor ≤ pos ∧ matchesAt ls pattern pos = true := by
  rw [matchPos] at h
  split_ifs at h with heof hlen
  · rw [Option.filter_eq_some_iff, Bool.and_eq_true, decide_eq_true_iff] at h
    exact h.2
  · cases h
  · rw [findBlockFrom] at h
    split_ifs at h
    exact ⟨(findIn_eq_some h).1, (findIn_eq_some h).2.2⟩

/-- **A hunk replaces a block that matches its pattern, at or after the cursor**, and the cursor
moves behind what it has written. -/
theorem applyCodexHunk_eq_ok (hs : s.cursor ≤ s.lines.length)
    (h : applyCodexHunk hunkNo hunk s = .ok s') :
    ∃ pos, s.cursor ≤ pos ∧ matchesAt s.lines (patternLines hunk.lines) pos = true ∧
      s' = ⟨splice s.lines pos (patternLines hunk.lines).length (replacementLines hunk.lines),
        pos + (replacementLines hunk.lines).length⟩ := by
  obtain ⟨cursor, hcursor, h⟩ := bind_eq_ok.mp h
  have hseek := seekAnchor_eq_ok hs hcursor
  by_cases hempty : (patternLines hunk.lines).isEmpty = true
  · rw [if_pos hempty] at h
    obtain ⟨pos, hpos, h⟩ := bind_eq_ok.mp h
    cases h
    have hinsert := insertPos_eq_ok hseek.2 hpos
    rw [List.isEmpty_iff] at hempty
    refine ⟨pos, le_trans hseek.1 hinsert.1, ?_, ?_⟩
    · rw [hempty, matchesAt_iff]
      exact ⟨hinsert.2, by simp [SameLines]⟩
    · rw [hempty, length_nil]
  · rw [if_neg hempty] at h
    cases hpos : matchPos hunk (patternLines hunk.lines) s.lines cursor with simp only [hpos] at h
    | none => cases h
    | some pos =>
      cases h
      have hmatch := matchPos_eq_some hpos
      exact ⟨pos, le_trans hseek.1 hmatch.1, hmatch.2, rfl⟩

end

/-! ## The blocks of a file -/

/-- A hunk at a line of the file, as a block and its new lines. -/
def placedBlock (q : ℕ × UpdateHunk) : Replacement Text := bodyBlock q.1 q.2.lines

/-- A block of the file for each hunk, from a line on: disjoint, in order, and the same as the
pattern of the hunk. -/
structure Placed (xs : List Text) (lo : ℕ) (hunks : List UpdateHunk)
    (places : List (ℕ × UpdateHunk)) : Prop where
  hunks_eq : places.map Prod.snd = hunks
  inOrder : InOrder lo xs.length (places.map placedBlock)
  covers : ∀ q ∈ places, Covers xs q.1 q.2.lines

variable {hunk : UpdateHunk}

theorem Placed.cons {xs : List Text} {lo p : ℕ} {hunks : List UpdateHunk}
    {places : List (ℕ × UpdateHunk)} (hlo : lo ≤ p) (hc : Covers xs p hunk.lines)
    (h : Placed xs (placedBlock (p, hunk)).stop hunks places) :
    Placed xs lo (hunk :: hunks) ((p, hunk) :: places) where
  hunks_eq := congrArg (hunk :: ·) h.hunks_eq
  inOrder := ⟨hlo, h.inOrder⟩
  covers := forall_mem_cons.mpr ⟨hc, h.covers⟩

theorem applyFrom_blocks {xs before out : List Text} {k hunkNo : ℕ} {hunks : List UpdateHunk}
    (hk : k ≤ xs.length)
    (h : applyFrom hunkNo ⟨before ++ xs.drop k, before.length⟩ hunks = .ok out) :
    ∃ places, Placed xs k hunks places ∧
      out = before ++ replaceFrom xs k (places.map placedBlock) := by
  induction hunks generalizing hunkNo before k with
  | nil =>
    cases h
    exact ⟨[], ⟨rfl, hk, by simp⟩, rfl⟩
  | cons hunk hunks ih =>
    obtain ⟨s, hstep, h⟩ := bind_eq_ok.mp h
    have hcursor : before.length ≤ (before ++ xs.drop k).length := by
      rw [length_append]
      exact le_add_right _ _
    obtain ⟨pos, hle, hmatch, rfl⟩ := applyCodexHunk_eq_ok hcursor hstep
    -- The position in the file: the rest starts at line `k` there.
    obtain ⟨p, hkp, rfl⟩ : ∃ p, k ≤ p ∧ pos = before.length + (p - k) :=
      ⟨k + (pos - before.length), le_add_right _ _, by simp only at hle; omega⟩
    rw [matchesAt_append_drop hkp hk] at hmatch
    obtain ⟨hstop, hsame⟩ := matchesAt_iff.mp hmatch
    rw [splice_append_drop before hkp] at h
    have hlen : before.length + (p - k) + (replacementLines hunk.lines).length =
        (before ++ (xs.drop k).take (p - k) ++ replacementLines hunk.lines).length := by
      rw [length_append, length_append, length_take, length_drop, min_eq_left (by omega)]
    rw [hlen] at h
    obtain ⟨places, hplaced, rfl⟩ := ih hstop h
    refine ⟨(p, hunk) :: places, hplaced.cons hkp hsame, ?_⟩
    simp [replaceFrom, placedBlock, bodyBlock, Replacement.stop]

/-- **Update hunks replace disjoint blocks of the file, in order**, each the same as its context and
removed lines up to trailing white space. The new lines are those of the file outside the blocks and
the context and added lines of the patch inside, with line feeds between them and one at the end if
the file had one. A file with a final line feed that loses all its lines is left out. -/
theorem applyCodexHunks_blocks {content out : Text} {hunks : List UpdateHunk}
    (h : applyCodexHunks content hunks = .ok out) :
    ∃ places, Placed (lines content) 0 hunks places ∧
      ((replaceFrom (lines content) 0 (places.map placedBlock) = [] →
          endsWithNewline content = false) →
        out = renderLines (endsWithNewline content)
          (replaceFrom (lines content) 0 (places.map placedBlock))) := by
  obtain ⟨ls, hls, h⟩ := bind_eq_ok.mp h
  cases h
  obtain ⟨places, hplaced, rfl⟩ := @applyFrom_blocks (lines content) [] ls 0 1 hunks
    (zero_le _) hls
  exact ⟨places, hplaced, fun _ => rfl⟩

/-- Two hunks with the same pattern are applied to two blocks. -/
theorem applyCodexHunks_blocks_twice :
    ∃ places, Placed (lines ['a', '\n', 'b', '\n', 'a', '\n']) 0
        [⟨none, [.remove ['a'], .add ['c']], false⟩, ⟨none, [.remove ['a'], .add ['d']], false⟩]
        places ∧
      ((replaceFrom (lines ['a', '\n', 'b', '\n', 'a', '\n']) 0 (places.map placedBlock) = [] →
          endsWithNewline ['a', '\n', 'b', '\n', 'a', '\n'] = false) →
        ['c', '\n', 'b', '\n', 'd', '\n'] =
          renderLines (endsWithNewline ['a', '\n', 'b', '\n', 'a', '\n'])
            (replaceFrom (lines ['a', '\n', 'b', '\n', 'a', '\n']) 0 (places.map placedBlock))) :=
  applyCodexHunks_blocks rfl

/-! ## The bytes of a file -/

/-- The lines of a text with their terminators. -/
def rawLines : Text → List Text
  | [] => []
  | c :: cs =>
    if c = '\n' then [c] :: rawLines cs
    else match rawLines cs with
      | [] => [[c]]
      | l :: ls => (c :: l) :: ls

/-- A hunk body as an edit of the bytes of its block: removed lines go, context lines stay as they
are in the file, and added lines are written by `write`. -/
def editBytes (write : Text → Text) : List DiffLine → List Text → List Text
  | .add s :: body, block => write s :: editBytes write body block
  | .context _ :: body, raw :: block => raw :: editBytes write body block
  | .remove _ :: body, _ :: block => editBytes write body block
  | _, _ => []

/-- A hunk at a line of the file, as an edit of the bytes of its block. -/
def exactBlock (write : Text → Text) (raw : List Text) (q : ℕ × UpdateHunk) : Replacement Text :=
  ⟨q.1, (patternLines q.2.lines).length,
    editBytes write q.2.lines ((raw.drop q.1).take (patternLines q.2.lines).length)⟩

/-- The hunks as an edit of the bytes: there are blocks as in `Placed` (a terminator is trailing
white space) such that only removed lines go and only added lines come. -/
def ExactUpdate (content : Text) (hunks : List UpdateHunk) (out : Text) : Prop :=
  ∃ write places, (∀ s, s <:+: write s) ∧ Placed (rawLines content) 0 hunks places ∧
    out = (replaceFrom (rawLines content) 0
      (places.map (exactBlock write (rawLines content)))).flatten

theorem ExactUpdate.single {content out : Text} (h : ExactUpdate content [hunk] out) :
    ∃ write p, p + (patternLines hunk.lines).length ≤ (rawLines content).length ∧
      Covers (rawLines content) p hunk.lines ∧
      out = (replaceFrom (rawLines content) 0
        [exactBlock write (rawLines content) (p, hunk)]).flatten := by
  obtain ⟨write, places, _, hplaced, rfl⟩ := h
  obtain ⟨q, rfl, rfl⟩ : ∃ q, places = [q] ∧ q.2 = hunk := by
    simpa [map_eq_singleton_iff] using hplaced.hunks_eq
  exact ⟨write, q.1, hplaced.inOrder.2, hplaced.covers q mem_cons_self, rfl⟩

/-- A context line loses its trailing white space, and a line that no hunk mentions its carriage
return. -/
theorem update_not_exact :
    (applyCodexHunks ['a', ' ', '\n', 'b', '\n']
        [⟨none, [.context ['a'], .remove ['b']], false⟩] = .ok ['a', '\n'] ∧
      ¬ ExactUpdate ['a', ' ', '\n', 'b', '\n']
        [⟨none, [.context ['a'], .remove ['b']], false⟩] ['a', '\n']) ∧
    (applyCodexHunks ['a', '\r', '\n', 'b', '\r', '\n'] [⟨none, [.remove ['b']], false⟩] =
        .ok ['a', '\n'] ∧
      ¬ ExactUpdate ['a', '\r', '\n', 'b', '\r', '\n'] [⟨none, [.remove ['b']], false⟩]
        ['a', '\n']) := by
  refine ⟨⟨rfl, fun h => ?_⟩, rfl, fun h => ?_⟩
  · obtain ⟨write, p, hp, _, hout⟩ := h.single
    obtain rfl : p = 0 := le_zero.mp (le_of_add_le_add_right hp)
    exact absurd (show ['a', '\n'] = ['a', ' ', '\n'] from hout) (by decide)
  · obtain ⟨write, p, hp, hcovers, hout⟩ := h.single
    rcases le_one_iff_eq_zero_or_eq_one.mp (le_of_add_le_add_right hp) with rfl | rfl
    · exact absurd hcovers (by decide)
    · exact absurd (show ['a', '\n'] = ['a', '\r', '\n'] from hout) (by decide)

end Octos.Tools
