import Octos.Session.Rollover

/-!
# Partial loads, rewrites and interrupted seals

A session may be loaded in part, rewritten from what was loaded, or repaired after an interrupted
seal; each of these trusts the count in a meta line for the rows it does not read. The count is
right as long as rollback markers stay within the active file. A marker that reaches behind it drops
rows that the count still includes.

## Main results

* `visible_history`: the files refine a list of messages
* `window_faithful`: a window shows the end of what is visible and counts the rest
* `rewrite_unchanged_visible`: rewriting what was loaded changes nothing that is visible
* `interrupted_seal_invisible`: both repairs write the counts that the seal would have written
-/

namespace Octos.Session

open Octos.Agent SessionFiles

variable {ι : Type}

/-- Rows of 70000 bytes, so that every file holds one message. -/
def wideRows : SessionConfig Unit := ⟨64 * 1024, le_rfl, fun _ => 100, fun _ => 70000, ()⟩

/-- A user message that roots a thread, added to the session. -/
def userTurn (thread : String) : Op Unit :=
  .append ⟨(), none, false⟩ ""
    ⟨.user, thread, [], none, none, none, none, some thread, 0, none, none⟩

/-- Three turns in three files, the last of them rolled back. -/
def rolledBackWithin : List (Op Unit) := [userTurn "a", userTurn "b", userTurn "c", .rollback 1]

/-- Two turns in two files, both rolled back by a marker in the second. -/
def rolledBackBehind : List (Op Unit) := [userTurn "a", userTurn "b", .rollback 2]

/-- **The files refine a list of messages.** Through seals, interrupted seals, rollbacks, partial
loads and rewrites, what is visible is a history of the operations, and the next row is numbered by
its length. -/
theorem visible_history (cfg : SessionConfig ι) (ops : List (Op ι))
    (hops : Guarded (step cfg) StepMeets (empty : SessionFiles ι) ops) :
    History cfg ops (visible (runSteps (step cfg) empty ops)) ∧
      (nextCommittedSeq cfg (runSteps (step cfg) empty ops)).map Prod.fst =
        .ok (visible (runSteps (step cfg) empty ops)).length := by
  obtain ⟨_, hhistory, segs, tail, hlaid, hchain, rfl⟩ := shows_run hops
  obtain ⟨files', tail', hnext, -⟩ := hlaid.nextCommittedSeq cfg hchain
  rw [hlaid.visible hchain, hnext]
  exact ⟨hhistory, rfl⟩

/-- The rewrite loads one of the two messages that are visible, and empties it. -/
theorem visible_history_rolledBack :
    let ops := rolledBackWithin ++ [.rewrite ⟨(), none, false⟩ 250000 [] fun _ => []]
    History wideRows ops (visible (runSteps (step wideRows) empty ops)) ∧
      (visible (runSteps (step wideRows) empty ops)).length = 1 :=
  ⟨(visible_history wideRows _ (by decide +kernel)).1, by decide +kernel⟩

/-- **Partial loads are faithful** in every run whose markers stay within the active file: whatever
the budget, the window shows the end of what is visible, and its base counts the rest. -/
theorem window_faithful (cfg : SessionConfig ι) (ops : List (Op ι))
    (hops : Guarded (step cfg) StepMeets (empty : SessionFiles ι) ops) (budget : ℕ) :
    ((loadSessionWindow cfg (runSteps (step cfg) empty ops) budget).1 = none →
        visible (runSteps (step cfg) empty ops) = []) ∧
      ∀ window,
        (loadSessionWindow cfg (runSteps (step cfg) empty ops) budget).1 = some window →
        foldSessionTimeline window.timeline <:+ visible (runSteps (step cfg) empty ops) ∧
          window.baseSeq + (foldSessionTimeline window.timeline).length =
            (visible (runSteps (step cfg) empty ops)).length := by
  obtain ⟨segs, tail, hlaid, hchain⟩ := kept_run hops
  generalize runSteps (step cfg) empty ops = files at *
  rw [hlaid.visible hchain]
  rcases hlaid.loadSessionWindow cfg hchain budget with
    ⟨rfl, rfl, hload⟩ | ⟨files', a, hlaid', hchain', hshown, hload⟩
  · rw [hload]
    exact ⟨fun _ => rfl, nofun⟩
  · rw [hload]
    refine ⟨nofun, ?_⟩
    rintro _ ⟨⟩
    obtain ⟨j, hj, hfold, hbase, -⟩ := hlaid'.fold_window cfg hchain' budget
    have hsplit : shownBy (segs ++ tail.toList) =
        shownBy (segs.take j) ++ (shownBy (segs.drop j) ++ a.shown) := by
      rw [hshown, ← List.append_assoc, ← shownBy_append, List.take_append_drop, shownBy_append]
    rw [hfold, hbase, hsplit]
    exact ⟨List.suffix_append .., by rw [← List.length_append]⟩

/-- Loaded in part: the last segment and the active file, with one message before them. -/
theorem window_faithful_lastSegment :
    ((loadSessionWindow wideRows (runSteps (step wideRows) empty rolledBackWithin)
        250000).1.map fun w => (w.baseSeq, (foldSessionTimeline w.timeline).length)) = some (1, 1) ∧
      ∀ window,
        (loadSessionWindow wideRows (runSteps (step wideRows) empty rolledBackWithin)
          250000).1 = some window →
        foldSessionTimeline window.timeline <:+
            visible (runSteps (step wideRows) empty rolledBackWithin) ∧
          window.baseSeq + (foldSessionTimeline window.timeline).length =
            (visible (runSteps (step wideRows) empty rolledBackWithin)).length :=
  ⟨by decide +kernel, (window_faithful wideRows rolledBackWithin (by decide +kernel) 250000).2⟩

/-- **The window counts what was rolled back**: the active file alone shows nothing after the
marker, and its base still counts the message that the marker dropped from the segment. -/
theorem window_overcounts :
    ¬ ∀ window,
      (loadSessionWindow wideRows (runSteps (step wideRows) empty rolledBackBehind)
        150000).1 = some window →
      window.baseSeq + (foldSessionTimeline window.timeline).length =
        (visible (runSteps (step wideRows) empty rolledBackBehind)).length := by
  have hwindow : ((loadSessionWindow wideRows
      (runSteps (step wideRows) empty rolledBackBehind) 150000).1.map
        fun w => w.baseSeq + (foldSessionTimeline w.timeline).length) = some 1 := by decide +kernel
  have hvisible : (visible (runSteps (step wideRows) empty rolledBackBehind)).length = 0 := by
    decide +kernel
  intro h
  obtain ⟨window, hload, hcount⟩ := Option.map_eq_some_iff.mp hwindow
  rw [h window hload, hvisible] at hcount
  cases hcount

/-- **Rewriting what was loaded changes nothing**, in every run whose markers stay within the active
file and whatever the budget. -/
theorem rewrite_unchanged_visible (cfg : SessionConfig ι) (ops : List (Op ι))
    (hops : Guarded (step cfg) StepMeets (empty : SessionFiles ι) ops)
    (info : SessionInfo ι) (budget : ℕ) (leftBehind : List ℕ) :
    visible (rewriteWith cfg info budget leftBehind id
        (runSteps (step cfg) empty ops)) =
      visible (runSteps (step cfg) empty ops) := by
  obtain ⟨segs, tail, hlaid, hchain⟩ := kept_run hops
  obtain ⟨j, hj, a, hmessages, hlaid', hchain', hshown⟩ :=
    hlaid.rewriteWith cfg hchain info budget leftBehind id
  rw [hlaid.visible hchain, hlaid'.visible hchain', Option.toList_some, shownBy_append,
    shownBy_singleton, hshown, id, hmessages, ← List.append_assoc, ← shownBy_append,
    List.take_append_drop, shownBy_append]

/-- A rewrite of the active file alone. -/
theorem rewrite_unchanged_visible_activeFile :
    (visible (rewriteWith wideRows ⟨(), none, false⟩ 150000 [] id
        (runSteps (step wideRows) empty rolledBackWithin))).length = 2 ∧
      visible (rewriteWith wideRows ⟨(), none, false⟩ 150000 [] id
        (runSteps (step wideRows) empty rolledBackWithin)) =
      visible (runSteps (step wideRows) empty rolledBackWithin) :=
  ⟨by decide +kernel,
    rewrite_unchanged_visible wideRows rolledBackWithin (by decide +kernel)
      ⟨(), none, false⟩ 150000 []⟩

/-- **A rewrite brings back what was rolled back**: the marker is folded away with the window, and
the message it dropped from the segment is visible again. -/
theorem rewrite_resurrects :
    (visible (runSteps (step wideRows) empty rolledBackBehind)).length = 0 ∧
      (visible (rewriteWith wideRows ⟨(), none, false⟩ 150000 [] id
        (runSteps (step wideRows) empty rolledBackBehind))).map (·.threadId) =
        [some "a"] := by
  decide +kernel

/-! ## Interrupted seals -/

/-- The sealed count and the base in the meta line of the active file. -/
def activeCounts (files : SessionFiles ι) : Option (ℕ × ℕ) :=
  (files.active.bind DiskFile.sessionMeta).map fun m => (m.sealedSegments, m.baseSeq)

/-- **Interrupted seals are invisible** in every run whose markers stay within the active file: the
seal writes one sealed segment more and what is visible as the base, and so do both repairs when it
stops after the rename, provided no stray file follows the segment. -/
theorem interrupted_seal_invisible (cfg : SessionConfig ι) (ops : List (Op ι))
    (hops : Guarded (step cfg) StepMeets (empty : SessionFiles ι) ops)
    (files : SessionFiles ι) (hfiles : files = runSteps (step cfg) empty ops)
    (hseals : sealsNow cfg files = true)
    (hstray : (files.segment (ownedSegments files + 1)).isNone) (nextSeq : ℕ) (info : SessionInfo ι)
    (m : Message) :
    (appendRowRolling cfg nextSeq info (.message m) files).toOption.bind (activeCounts ·.2) =
        some (ownedSegments files + 1, (visible files).length) ∧
      (recoverActiveAfterSeal cfg (renameActive files)).bind (activeCounts ·.2) =
        some (ownedSegments files + 1, (visible files).length) ∧
      (visibleLenAfterInterruptedSeal cfg (renameActive files)).toOption.bind (activeCounts ·.2) =
        some (ownedSegments files + 1, (visible files).length) := by
  obtain ⟨segs, tail, hlaid, hchain⟩ := kept_run hops
  rw [← hfiles] at hlaid
  obtain ⟨a, rfl⟩ := hlaid.exists_of_sealsNow hseals
  rw [hlaid.visible hchain, hlaid.owned]
  rw [hlaid.owned] at hstray
  have hinterrupted := hlaid.interrupted (Option.isNone_iff_eq_none.mp hstray)
  refine ⟨?_, ?_, ?_⟩
  · obtain ⟨files', happend, hlaid'⟩ := hlaid.appendRowRolling_seals hchain hseals nextSeq info m
    rw [happend]
    simp [activeCounts, Except.toOption, hlaid'.active, SegmentFile.file, DiskFile.sessionMeta,
      freshFile, sealedMeta, SessionInfo.metaFor]
  · rw [hinterrupted.recoverActiveAfterSeal hchain]
    simp [activeCounts, SegmentFile.file, DiskFile.sessionMeta, recoveredFile]
  · rw [hinterrupted.visibleLenAfterInterruptedSeal hchain]
    simp [activeCounts, Except.toOption, SegmentFile.file, DiskFile.sessionMeta, recoveredFile]

/-- The seal of the third file. -/
theorem interrupted_seal_invisible_thirdFile :
    (recoverActiveAfterSeal wideRows
        (renameActive (runSteps (step wideRows) empty rolledBackWithin))).bind
          (activeCounts ·.2) = some (3, 2) := by
  have hmeets := interrupted_seal_invisible wideRows rolledBackWithin (by decide +kernel) _ rfl
    (by decide +kernel) (by decide +kernel) 0 ⟨(), none, false⟩
    ⟨.user, "d", [], none, none, none, none, some "d", 0, none, none⟩
  exact hmeets.2.1.trans (by decide +kernel)

/-- **The repairs count what was rolled back**: the seal itself folds the whole history when a
marker reaches behind its file, the repairs fold the renamed file alone. -/
theorem recovered_base_differs :
    (appendRowRolling wideRows 0 ⟨(), none, false⟩
        (.message ⟨.user, "d", [], none, none, none, none, some "d", 0, none, none⟩)
        (runSteps (step wideRows) empty rolledBackBehind)).toOption.bind
          (activeCounts ·.2) = some (2, 0) ∧
      (recoverActiveAfterSeal wideRows
        (renameActive (runSteps (step wideRows) empty rolledBackBehind))).bind
          (activeCounts ·.2) = some (2, 1) ∧
      (visibleLenAfterInterruptedSeal wideRows
        (renameActive (runSteps (step wideRows) empty rolledBackBehind))).toOption.bind
          (activeCounts ·.2) = some (2, 1) ∧
      (visible (runSteps (step wideRows) empty rolledBackBehind)).length = 0 := by
  decide +kernel

end Octos.Session
