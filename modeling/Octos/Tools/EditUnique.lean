import Octos.Tools.Replacer
import Mathlib.Data.List.GetD

/-!
# An edit has one target

`edit_file` promises that more than one match is an error. The stages that compare windows of lines
look at every window, so one match is the only one. The stages that search a substring go on behind
each occurrence they find: an occurrence that overlaps the one before is not counted, and the edit
is made although its target is ambiguous. This happens exactly if the needle occurs twice, but not
at two places that are apart.

## Main results

* `uniqueEdit_iff`: every edit has one target iff a needle that occurs twice is found twice
-/

namespace Octos.Tools

open List LinePattern

/-! ## Ranges of a text -/

section

variable {content find : Text} {spans : List Span} {r : Span} {i j n s : ℕ} {consume : Bool}

/-- A range of a text. -/
def Span.Within (content : Text) (r : Span) : Prop := r.start ≤ r.stop ∧ r.stop ≤ content.length

variable {pieces : List Text}

theorem le_of_mem_indexFrom (h : r ∈ indexFrom s pieces) : s ≤ r.start ∧ r.start ≤ r.stop := by
  induction pieces generalizing s with
  | nil => exact absurd h not_mem_nil
  | cons _ _ ih =>
    rcases mem_cons.mp h with rfl | h
    · exact ⟨Nat.le_refl _, Nat.le_add_right ..⟩
    · have := ih h
      exact ⟨by omega, this.2⟩

theorem stop_le_of_mem_indexFrom (h : r ∈ indexFrom s (splitNewlines content)) :
    r.stop ≤ s + content.length := by
  induction content generalizing s r with
  | nil =>
    rw [splitNewlines, indexFrom, indexFrom, mem_singleton] at h
    rw [h]
  | cons c cs ih =>
    rw [length_cons]
    rw [splitNewlines] at h
    split_ifs at h with hc
    · rcases mem_cons.mp h with rfl | h
      · exact Nat.le_add_right ..
      · have := ih h
        simp only [length_nil] at this
        omega
    · cases hl : splitNewlines cs with
      | nil =>
        simp only [hl] at h
        rcases mem_cons.mp h with rfl | h
        · simp only [length_cons, length_nil]
          omega
        · exact absurd h not_mem_nil
      | cons l ls =>
        simp only [hl] at h ih
        -- The first line is one character longer, the others are the same.
        rcases mem_cons.mp h with rfl | h
        · have := @ih ⟨s + 1, s + 1 + l.length⟩ (s + 1) mem_cons_self
          simp only [length_cons] at this ⊢
          omega
        · have hstart : s + (c :: l).length + 1 = s + 1 + l.length + 1 := by
            rw [length_cons]
            omega
          rw [hstart] at h
          have := @ih r (s + 1) (mem_cons_of_mem _ h)
          omega

theorem start_le_stop_indexFrom {d : Span} (hij : i ≤ j) (hj : j < (indexFrom s pieces).length) :
    ((indexFrom s pieces).getD i d).start ≤ ((indexFrom s pieces).getD j d).stop := by
  induction pieces generalizing s i j with
  | nil => simp [indexFrom] at hj
  | cons piece pieces ih =>
    cases i with
    | zero =>
      have hmem : (indexFrom s (piece :: pieces)).getD j d ∈ indexFrom s (piece :: pieces) := by
        rw [getD_eq_getElem _ _ hj]
        exact getElem_mem hj
      have := le_of_mem_indexFrom hmem
      exact Nat.le_trans this.1 this.2
    | succ i =>
      cases j with
      | zero => omega
      | succ j =>
        refine ih (by omega) ?_
        rw [indexFrom, length_cons] at hj
        omega

theorem windowRange_within (hn : n ≠ 0) (hi : i + n ≤ (indexLines content).length) :
    (windowRange content (indexLines content) i n consume).Within content := by
  have hlast : i + n - 1 < (indexLines content).length := by omega
  have hle : ((indexLines content).getD i ⟨0, 0⟩).start ≤
      ((indexLines content).getD (i + n - 1) ⟨0, 0⟩).stop :=
    start_le_stop_indexFrom (by omega) hlast
  have hmem : (indexLines content).getD (i + n - 1) ⟨0, 0⟩ ∈ indexLines content := by
    rw [getD_eq_getElem _ _ hlast]
    exact getElem_mem hlast
  have hstop := stop_le_of_mem_indexFrom hmem
  rw [Nat.zero_add] at hstop
  simp only [Span.Within, windowRange]
  split_ifs with hconsume
  · rw [Bool.and_eq_true, beq_iff_eq] at hconsume
    have hlt := (List.getElem?_eq_some_iff.mp hconsume.2).1
    exact ⟨by omega, hlt⟩
  · exact ⟨hle, hstop⟩

end

/-! ## Windows of lines -/

/-- The window of lines from a line on is one that a matcher accepts. -/
def WindowAt (pattern : LinePattern) (content : Text) (i : ℕ) : Prop :=
  pattern.count ≠ 0 ∧ i + pattern.count ≤ (indexLines content).length ∧
    pattern.accepts (windowTexts content (indexLines content) i pattern.count) = true

section

variable {pattern : LinePattern} {content : Text} {i : ℕ} {r : Span}

theorem LinePattern.mem_windows :
    i ∈ pattern.windows content (indexLines content) ↔ WindowAt pattern content i := by
  rw [windows, WindowAt]
  split_ifs with h
  · refine iff_of_false not_mem_nil ?_
    rintro ⟨hne, hle, _⟩
    omega
  · rw [mem_filter, mem_range]
    constructor
    · rintro ⟨hlt, hacc⟩
      exact ⟨by omega, by omega, hacc⟩
    · rintro ⟨hne, hle, hacc⟩
      exact ⟨by omega, hacc⟩

theorem LinePattern.spans_eq_nil_iff :
    pattern.spans content (indexLines content) = [] ↔ ∀ i, ¬ WindowAt pattern content i := by
  rw [spans, map_eq_nil_iff, eq_nil_iff_forall_not_mem]
  exact forall_congr' fun i => not_congr mem_windows

/-- **One match of windows is the only window.** -/
theorem LinePattern.spans_eq_singleton (h : pattern.spans content (indexLines content) = [r]) :
    ∃ i, WindowAt pattern content i ∧ ∀ j, WindowAt pattern content j → j = i := by
  rw [spans, map_eq_singleton_iff] at h
  obtain ⟨i, hi, _⟩ := h
  refine ⟨i, mem_windows.mp ?_, ?_⟩
  · rw [hi]
    exact mem_singleton.mpr rfl
  · intro j hj
    have hmem := mem_windows.mpr hj
    rw [hi] at hmem
    exact mem_singleton.mp hmem

theorem LinePattern.within_of_mem_spans (h : r ∈ pattern.spans content (indexLines content)) :
    r.Within content := by
  obtain ⟨i, hi, rfl⟩ := mem_map.mp h
  obtain ⟨hne, hle, _⟩ := mem_windows.mp hi
  exact windowRange_within hne hle

end

/-! ## Every match is a range -/

section

variable {content find : Text} {r : Span} {i : ℕ}

theorem exactMatches_within (hfind : find ≠ []) (h : r ∈ exactMatches content find) :
    r.Within content := by
  obtain ⟨i, hi, rfl⟩ := mem_map.mp h
  exact ⟨Nat.le_add_right .., (occursAt_of_mem_matchIndices hi).add_length_le hfind⟩

theorem unescapeFind_ne_nil (h : find ≠ []) : unescapeFind find ≠ [] := by
  fun_cases unescapeFind find
  all_goals first | exact cons_ne_nil _ _ | exact absurd rfl h

/-- A fold that keeps its state or takes an element ends with an element of the list. -/
theorem mem_of_foldl_eq_some {σ : Type} {f : Option (σ × ℕ) → ℕ → Option (σ × ℕ)}
    (hf : ∀ b j, f b j = b ∨ ∃ x, f b j = some (x, j)) {js : List ℕ} {start : Option (σ × ℕ)}
    {b : σ × ℕ} (h : js.foldl f start = some b) : start = some b ∨ b.2 ∈ js := by
  induction js generalizing start with
  | nil => exact .inl h
  | cons j js ih =>
    rcases ih h with hstart | hmem
    · rcases hf start j with hkeep | ⟨x, hx⟩
      · exact .inl (hkeep.symm.trans hstart)
      · rw [hx] at hstart
        cases hstart
        exact .inr mem_cons_self
    · exact .inr (mem_cons_of_mem _ hmem)

theorem bestClosing_eq_some {texts middleFind : List Text} {lastAnchor : Text} {maxMiddle : ℕ}
    {best : Float × ℕ} (h : bestClosing texts middleFind lastAnchor maxMiddle i = some best) :
    i < best.2 ∧ best.2 < texts.length := by
  have hstep : ∀ b j, closingStep texts middleFind lastAnchor i b j = b ∨
      ∃ x, closingStep texts middleFind lastAnchor i b j = some (x, j) := by
    intro b j
    rw [closingStep]
    simp only
    split_ifs
    · exact .inl rfl
    · exact .inr ⟨_, rfl⟩
    · exact .inl rfl
  rcases mem_of_foldl_eq_some hstep h with hnone | hmem
  · cases hnone
  · have hrange := mem_range'_1.mp ((takeWhile_sublist _).subset hmem)
    omega

theorem blockAnchorMatches_within (h : r ∈ blockAnchorMatches content (indexLines content) find) :
    r.Within content := by
  rw [blockAnchorMatches] at h
  split_ifs at h
  · exact absurd h not_mem_nil
  · obtain ⟨i, hi, h⟩ := mem_filterMap.mp h
    split_ifs at h
    obtain ⟨best, hbest, rfl⟩ := Option.map_eq_some_iff.mp h
    have hclosing := bestClosing_eq_some hbest
    rw [length_map] at hclosing
    exact windowRange_within (Nat.succ_ne_zero _) (by omega)

/-- **Every match of a stage is a range of the text.** -/
theorem stageMatches_within {stage : Replacer} (hfind : find ≠ [])
    (h : r ∈ stageMatches content find stage) : r.Within content := by
  cases stage with
  | exact => exact exactMatches_within hfind h
  | lineTrimmed | whitespaceNormalized | indentationFlexible => exact within_of_mem_spans h
  | escapeNormalized =>
    rw [stageMatches, escapeNormalizedMatches] at h
    split_ifs at h
    · exact absurd h not_mem_nil
    · exact exactMatches_within (unescapeFind_ne_nil hfind) h
  | blockAnchor => exact blockAnchorMatches_within h

end

/-! ## The chain -/

/-- What a stage matches: an occurrence of the needle, or a window of lines. -/
def Found (content old : Text) : Replacer → Prop
  | .exact => ∃ i, OccursAt old content i
  | .lineTrimmed => ∃ i, WindowAt (lineTrimmed old) content i
  | .whitespaceNormalized => ∃ i, WindowAt (whitespaceNormalized old) content i
  | .indentationFlexible => ∃ i, WindowAt (indentationFlexible old) content i
  | .escapeNormalized => unescapeFind old ≠ old ∧ ∃ i, OccursAt (unescapeFind old) content i
  | .blockAnchor => blockAnchorMatches content (indexLines content) old ≠ []

/-- The matcher of a stage that compares windows of lines. -/
def Replacer.linePattern (old : Text) : Replacer → Option LinePattern
  | lineTrimmed => some (Tools.lineTrimmed old)
  | whitespaceNormalized => some (Tools.whitespaceNormalized old)
  | indentationFlexible => some (Tools.indentationFlexible old)
  | _ => none

/-- The stages before a stage. -/
def Replacer.earlier (stage : Replacer) : List Replacer := chain.takeWhile (· ≠ stage)

/-- A range is what a stage matches: an occurrence of the needle, or the lines of a window. -/
def Span.Covers (content old : Text) (stage : Replacer) (r : Span) : Prop :=
  (stage = .exact ∨ stage = .escapeNormalized → OccursAt (stage.interpret old) content r.start ∧
    r.stop = r.start + (stage.interpret old).length) ∧
  ∀ pattern, stage.linePattern old = some pattern → ∃ i, WindowAt pattern content i ∧
    r = windowRange content (indexLines content) i pattern.count pattern.consume

/-- An edit with one target: the needle of a search occurs at one position of the text, a window of
lines is the only one that its stage accepts and no stage before has found anything, and the new
text is the old one with the range of that match replaced. -/
structure UniqueEdit (content old new out : Text) (stage : Replacer) : Prop where
  occurrence : stage = .exact ∨ stage = .escapeNormalized →
    ∃ i, OccursAt (stage.interpret old) content i ∧
      ∀ j, OccursAt (stage.interpret old) content j → j = i
  window : ∀ pattern, stage.linePattern old = some pattern →
    (∃ i, WindowAt pattern content i ∧ ∀ j, WindowAt pattern content j → j = i) ∧
      ∀ s ∈ stage.earlier, ¬ Found content old s
  range : ∃ before matched after, content = before ++ matched ++ after ∧
    out = before ++ stage.interpret new ++ after ∧
    Span.Covers content old stage ⟨before.length, before.length + matched.length⟩

/-- A stage that searches for a substring, and is reached. -/
def Searches (content old : Text) (stage : Replacer) : Prop :=
  (stage = .exact ∨ stage = .escapeNormalized ∧ unescapeFind old ≠ old) ∧
    ∀ s ∈ stage.earlier, ¬ Found content old s

section

variable {content old new out : Text} {stage : Replacer} {stages : List Replacer} {r : Span}

theorem stageMatches_eq_nil_iff (hold : old ≠ []) :
    stageMatches content old stage = [] ↔ ¬ Found content old stage := by
  cases stage with
  | exact =>
    rw [stageMatches, exactMatches, map_eq_nil_iff, matchIndices_eq_nil_iff hold, Found, not_exists]
  | lineTrimmed | whitespaceNormalized | indentationFlexible =>
    rw [stageMatches, spans_eq_nil_iff, Found, not_exists]
  | escapeNormalized =>
    rw [stageMatches, escapeNormalizedMatches, Found]
    split_ifs with hsame
    · exact iff_of_true rfl fun h => h.1 hsame
    · rw [exactMatches, map_eq_nil_iff, matchIndices_eq_nil_iff (unescapeFind_ne_nil hold)]
      constructor
      · rintro hnone ⟨_, i, hi⟩
        exact hnone i hi
      · intro h i hi
        exact h ⟨hsame, i, hi⟩
  | blockAnchor => rw [stageMatches, Found, not_not]

theorem runChain_eq_found_iff : runChain content old stages = .found r stage ↔
    stage ∈ stages ∧ (∀ s ∈ stages.takeWhile (· ≠ stage), stageMatches content old s = []) ∧
      stageMatches content old stage = [r] := by
  induction stages with
  | nil => simp [runChain]
  | cons s stages ih =>
    rw [runChain]
    by_cases hs : s = stage
    · subst hs
      split
      · next hnil => simp [ih, hnil]
      · next r' hone =>
        rw [hone]
        simp
      · next m m' ms hmany =>
        rw [hmany]
        simp
    · have htake : (s :: stages).takeWhile (· ≠ stage) = s :: stages.takeWhile (· ≠ stage) := by
        rw [takeWhile_cons, if_pos (by simpa using hs)]
      rw [htake, forall_mem_cons, mem_cons]
      split
      · next hnil => simp [ih, hnil, Ne.symm hs]
      · next r' hone =>
        rw [hone]
        simp [hs]
      · next m m' ms hmany =>
        rw [hmany]
        simp

theorem findReplacement_eq_found_iff (hold : old ≠ []) :
    findReplacement content old = .found r stage ↔
      (∀ s ∈ stage.earlier, ¬ Found content old s) ∧ stageMatches content old stage = [r] := by
  have hempty : ¬ old.isEmpty = true := by simpa using hold
  have hmem : stage ∈ Replacer.chain := by
    cases stage <;> decide
  rw [findReplacement, if_neg hempty, runChain_eq_found_iff]
  simp only [hmem, true_and, stageMatches_eq_nil_iff hold]
  rfl

theorem stageReplacement_eq_ok (h : stageReplacement content old new = .ok (out, stage)) :
    old ≠ [] ∧ ∃ r, findReplacement content old = .found r stage ∧
      out = content.take r.start ++ stage.interpret new ++ content.drop r.stop := by
  rw [stageReplacement] at h
  split_ifs at h with hempty
  refine ⟨by simpa using hempty, ?_⟩
  split at h
  · cases h
  · cases h
  · next r stage' hfound =>
    simp only at h
    split_ifs at h
    cases h
    exact ⟨r, hfound, rfl⟩

theorem matchIndices_of_stageMatches (hstage : stage = .exact ∨ stage = .escapeNormalized)
    (h : stageMatches content old stage = [r]) :
    ∃ i, matchIndices (stage.interpret old) content = [i] ∧
      r = ⟨i, i + (stage.interpret old).length⟩ := by
  have hexact : exactMatches content (stage.interpret old) = [r] := by
    rcases hstage with rfl | rfl
    · exact h
    · rw [stageMatches, escapeNormalizedMatches] at h
      split_ifs at h
      exact h
  obtain ⟨i, hi, hr⟩ := map_eq_singleton_iff.mp hexact
  exact ⟨i, hi, hr.symm⟩

theorem covers_of_stageMatches (h : stageMatches content old stage = [r]) :
    r.Covers content old stage := by
  constructor
  · intro hstage
    obtain ⟨i, hi, rfl⟩ := matchIndices_of_stageMatches hstage h
    exact ⟨occursAt_of_mem_matchIndices (hi ▸ mem_cons_self), rfl⟩
  · intro pattern hpattern
    have hspans : pattern.spans content (indexLines content) = [r] := by
      cases stage <;> cases hpattern <;> exact h
    obtain ⟨i, hi, rfl⟩ := mem_map.mp (hspans ▸ mem_cons_self)
    exact ⟨i, mem_windows.mp hi, rfl⟩

theorem not_isDisproportionateMatch (find : Text) : isDisproportionateMatch find find = false := by
  rw [isDisproportionateMatch, Bool.or_eq_false_iff, decide_eq_false_iff_not,
    decide_eq_false_iff_not]
  constructor <;> omega

theorem text_eq_of_occursAt {pat : Text} {i : ℕ} (h : OccursAt pat content i) :
    Span.text content ⟨i, i + pat.length⟩ = pat := by
  rw [Span.text, Nat.add_sub_cancel_left]
  exact (prefix_iff_eq_take.mp h).symm

theorem stageReplacement_of_searches (hold : old ≠ []) (hsearch : Searches content old stage)
    (hlen : (matchIndices (stage.interpret old) content).length = 1) :
    ∃ out, stageReplacement content old new = .ok (out, stage) := by
  obtain ⟨i, hi⟩ := length_eq_one_iff.mp hlen
  have hocc : OccursAt (stage.interpret old) content i := by
    refine occursAt_of_mem_matchIndices ?_
    rw [hi]
    exact mem_cons_self
  have hmatches : stageMatches content old stage = [⟨i, i + (stage.interpret old).length⟩] := by
    rcases hsearch.1 with rfl | ⟨rfl, hne⟩
    · exact congrArg (List.map _) hi
    · rw [stageMatches, escapeNormalizedMatches, if_neg hne]
      exact congrArg (List.map _) hi
  have hempty : ¬ old.isEmpty = true := by simpa using hold
  have hfound := (findReplacement_eq_found_iff hold).mpr ⟨hsearch.2, hmatches⟩
  rw [stageReplacement, if_neg hempty]
  simp only [hfound, text_eq_of_occursAt hocc, not_isDisproportionateMatch]
  exact ⟨_, rfl⟩

end

/-- **Every edit has one target iff a needle that occurs twice also occurs at two places that are
apart**, for the needle of the search that is reached. -/
theorem uniqueEdit_iff (content old new : Text) :
    (∀ out stage, stageReplacement content old new = .ok (out, stage) →
      UniqueEdit content old new out stage) ↔
    ∀ stage, Searches content old stage →
      Recurs (stage.interpret old) content → Apart (stage.interpret old) content := by
  constructor
  · intro hunique stage hsearch hrec
    by_contra hapart
    -- The empty needle occurs everywhere, also at places that are apart.
    have hold : old ≠ [] := by
      rintro rfl
      refine hapart ⟨0, 0, ?_, ?_, ?_⟩
      all_goals cases stage <;> simp [OccursAt, Replacer.interpret, unescapeFind]
    have hneedle : stage.interpret old ≠ [] := by
      rcases hsearch.1 with rfl | ⟨rfl, _⟩
      · exact hold
      · exact unescapeFind_ne_nil hold
    have hlen := length_matchIndices_eq_one hneedle hrec hapart
    obtain ⟨out, hout⟩ := @stageReplacement_of_searches content old new stage hold hsearch hlen
    obtain ⟨i, _, honly⟩ := (hunique out stage hout).occurrence (hsearch.1.imp_right And.left)
    obtain ⟨j, k, hj, hk, hne⟩ := hrec
    exact hne ((honly j hj).trans (honly k hk).symm)
  · intro hseen out stage hout
    obtain ⟨hold, r, hfound, rfl⟩ := stageReplacement_eq_ok hout
    obtain ⟨hearlier, hmatches⟩ := (findReplacement_eq_found_iff hold).mp hfound
    have hwithin : r.Within content := by
      refine @stageMatches_within content old r stage hold ?_
      rw [hmatches]
      exact mem_cons_self
    refine ⟨?_, ?_, ?_⟩
    · intro hstage
      have hneedle : stage.interpret old ≠ [] := by
        rcases hstage with rfl | rfl
        · exact hold
        · exact unescapeFind_ne_nil hold
      have hsearch : Searches content old stage := by
        refine ⟨hstage.imp_right fun h => ⟨h, ?_⟩, hearlier⟩
        -- The stage has a match, so the needle is another one without its escapes.
        subst h
        intro hsame
        rw [stageMatches, escapeNormalizedMatches, if_pos hsame] at hmatches
        cases hmatches
      obtain ⟨i, hi, -⟩ := matchIndices_of_stageMatches hstage hmatches
      exact occurs_once hneedle (congrArg List.length hi) (hseen stage hsearch)
    · intro pattern hpattern
      refine ⟨?_, hearlier⟩
      cases stage <;> cases hpattern <;> exact LinePattern.spans_eq_singleton hmatches
    · obtain ⟨hle, hstop⟩ := hwithin
      refine ⟨content.take r.start, r.text content, content.drop r.stop, ?_, rfl, ?_⟩
      · have hdrop : content.drop r.stop = (content.drop r.start).drop (r.stop - r.start) := by
          rw [drop_drop, Nat.add_sub_cancel' hle]
        rw [Span.text, hdrop, append_assoc, take_append_drop, take_append_drop]
      · have hstart : (content.take r.start).length = r.start := length_take_of_le (hle.trans hstop)
        have htext : (r.text content).length = r.stop - r.start := by
          rw [Span.text, length_take_of_le]
          rw [length_drop]
          omega
        rw [hstart, htext, Nat.add_sub_cancel' hle]
        exact covers_of_stageMatches hmatches

/-- The second occurrence overlaps the first, and the edit is made. -/
theorem overlappingTarget_edited :
    stageReplacement ['a', 'a', 'a'] ['a', 'a'] ['b'] = .ok (['b', 'a'], .exact) ∧
      ¬ UniqueEdit ['a', 'a', 'a'] ['a', 'a'] ['b'] ['b', 'a'] .exact := by
  refine ⟨rfl, ?_⟩
  intro h
  obtain ⟨i, _, honly⟩ := h.occurrence (.inl rfl)
  have hfirst : (0 : ℕ) = i := honly 0 ⟨['a'], rfl⟩
  have hsecond : (1 : ℕ) = i := honly 1 ⟨[], rfl⟩
  omega

end Octos.Tools
