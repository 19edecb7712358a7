import Octos.Session.Segments

/-!
# Appends, seals, markers and rewrites

Every operation keeps the files a chain, when a rollback marker stays within the active file and a
seal is interrupted only with no stray segment behind the one it writes. Stray segments are what a
rewrite fails to remove; they are not owned, and only the repair of an interrupted seal counts them.
What the files show is then a plain list of messages, on which the operations act (`Op.Acts`).
-/

namespace Octos.Session

open Agent List

variable {ι : Type} {cfg : SessionConfig ι} {files : SessionFiles ι}
  {segs : List (SegmentFile ι)} {tail : Option (SegmentFile ι)} {a : SegmentFile ι}

/-- The files are a chain, which shows some messages. -/
def Shows (files : SessionFiles ι) (history : List Message) : Prop :=
  ∃ segs tail, LaidOut files segs tail ∧ Chain (segs ++ tail.toList) ∧
    shownBy (segs ++ tail.toList) = history

variable {history : List Message}

/-! ## First use -/

/-- The session has an active file, or is new. -/
def Settled (segs : List (SegmentFile ι)) (tail : Option (SegmentFile ι)) : Prop :=
  tail = none → segs = []

variable (cfg)

section

variable (h : LaidOut files segs tail) (hchain : Chain (segs ++ tail.toList))
include h hchain

theorem LaidOut.nextCommittedSeq :
    ∃ files' tail',
      nextCommittedSeq cfg files = .ok ((shownBy (segs ++ tail.toList)).length, files') ∧
      LaidOut files' segs tail' ∧ Chain (segs ++ tail'.toList) ∧ Settled segs tail' ∧
      shownBy (segs ++ tail.toList) = shownBy (segs ++ tail'.toList) ∧
      files'.segments = files.segments := by
  cases tail with
  | some a =>
    refine ⟨files, some a, ?_, h, hchain, nofun, rfl, rfl⟩
    rw [nextCommittedSeq, h.active]
    rw [h.visibleLenFromActive hchain]
    rfl
  | none =>
    rw [Option.toList_none, append_nil] at hchain ⊢
    rw [nextCommittedSeq, h.active, h.count]
    rcases eq_nil_or_concat' segs with rfl | ⟨init, last, rfl⟩
    · exact ⟨files, none, rfl, h, chain_nil, fun _ => rfl, rfl, rfl⟩
    · rw [if_neg (by simp), h.visibleLenAfterInterruptedSeal hchain]
      exact ⟨_, some _, rfl, h.withActive rfl, hchain.recovered, nofun,
        by simp [shownBy, recoveredFile_shown], rfl⟩

theorem LaidOut.loadSessionWindow (budget : ℕ) :
    (segs = [] ∧ tail = none ∧ loadSessionWindow cfg files budget = (none, files)) ∨
      ∃ files' a, LaidOut files' segs (some a) ∧ Chain (segs ++ [a]) ∧
        a.shown = shownBy tail.toList ∧
        loadSessionWindow cfg files budget =
          (some (Session.windowFrom cfg files' budget a), files') := by
  cases tail with
  | some a =>
    refine .inr ⟨files, a, h, hchain, (shownBy_singleton a).symm, ?_⟩
    have hread : files.active.bind readSegment = some a := by
      rw [h.active]
      rfl
    rw [loadSessionWindow, hread]
  | none =>
    rw [Option.toList_none, append_nil] at hchain
    have hread : files.active.bind readSegment = none := by
      rw [h.active]
      rfl
    rcases eq_nil_or_concat' segs with rfl | ⟨init, last, rfl⟩
    · refine .inl ⟨rfl, rfl, ?_⟩
      have hnone : Session.recoverActiveAfterSeal cfg files = none := by
        rw [Session.recoverActiveAfterSeal, h.count]
        simp
      rw [loadSessionWindow, hread, hnone]
    · refine .inr ⟨_, recoveredFile cfg (init ++ [last]) last, h.withActive rfl,
        hchain.recovered, rfl, ?_⟩
      rw [loadSessionWindow, hread, h.recoverActiveAfterSeal hchain]

end

theorem LaidOut.fold_window (h : LaidOut files segs (some a))
    (hchain : Chain (segs ++ [a])) (budget : ℕ) :
    ∃ j ≤ segs.length,
      foldSessionTimeline (Session.windowFrom cfg files budget a).timeline =
        shownBy (segs.drop j) ++ a.shown ∧
      (Session.windowFrom cfg files budget a).baseSeq = (shownBy (segs.take j)).length ∧
      (Session.windowFrom cfg files budget a).sealedSegments = segs.length ∧
      (Session.windowFrom cfg files budget a).loadedSealed = segs.length - j := by
  obtain ⟨j, hj, htimeline, hrest⟩ := h.windowFrom cfg hchain budget
  refine ⟨j, hj, ?_, hrest⟩
  rw [htimeline]
  exact hchain.fold_window (drop_suffix j segs)

/-- **A session loaded with a budget**: it holds what a window of the chain shows, and knows how
much is shown before. -/
theorem LaidOut.openSession (h : LaidOut files segs tail)
    (hchain : Chain (segs ++ tail.toList)) (info : SessionInfo ι) (budget : ℕ) :
    ∃ tail', LaidOut (openSession cfg info budget files).2 segs tail' ∧
      Chain (segs ++ tail'.toList) ∧ Settled segs tail' ∧
      ∃ j ≤ segs.length,
        (openSession cfg info budget files).1.messages.map (·.1) =
          shownBy (segs.drop j) ++ shownBy tail.toList ∧
        (openSession cfg info budget files).1.baseSeq = (shownBy (segs.take j)).length ∧
        (openSession cfg info budget files).1.sealedSegments = segs.length ∧
        (openSession cfg info budget files).1.loadedSealed = segs.length - j := by
  rcases h.loadSessionWindow cfg hchain budget with
    ⟨rfl, rfl, hload⟩ | ⟨files', a, h', hchain', hshown, hload⟩
  · rw [Session.openSession, hload]
    exact ⟨none, h, hchain, fun _ => rfl, 0, le_rfl, rfl, rfl, rfl, rfl⟩
  · obtain ⟨j, hj, hfold, hbase, hsealed, hloaded⟩ := h'.fold_window cfg hchain' budget
    rw [Session.openSession, hload]
    refine ⟨some a, h', hchain', nofun, j, hj, ?_, hbase, hsealed, hloaded⟩
    rw [← hshown, ← hfold]
    exact attachWith_map_subtype_val _

variable {cfg}

/-! ## Appending -/

variable {segments : List (Option (DiskFile ι))} {n : ℕ} {file : DiskFile ι}

theorem take_setSegment (hn : n ≤ segments.length) :
    (setSegment segments n file).take (n + 1) = segments.take n ++ [some file] := by
  rw [setSegment]
  split_ifs with hlt
  · rw [take_add_one, take_set_of_le le_rfl, getElem?_set_self hlt]
    rfl
  · obtain rfl : n = segments.length := by omega
    rw [Nat.sub_self, replicate_zero, append_nil, take_length, take_of_length_le (by simp)]

theorem LaidOut.length_le (h : LaidOut files segs tail) : segs.length ≤ files.segments.length := by
  have hlength := congrArg List.length h.segments
  rw [length_take, length_map] at hlength
  omega

theorem LaidOut.renameActive (h : LaidOut files segs (some a)) :
    (renameActive files).active = none ∧
      (renameActive files).segments.take (segs ++ [a]).length =
        (segs ++ [a]).map fun s => some s.file := by
  rw [Session.renameActive, h.active]
  dsimp only [Option.map_some]
  refine ⟨rfl, ?_⟩
  rw [h.owned, length_append, length_singleton, take_setSegment h.length_le, h.segments, map_append]
  rfl

@[simp] theorem keepManualTitle_sealedSegments (m : SessionMeta ι)
    (previous : Option (SessionMeta ι)) :
    (m.keepManualTitle previous).sealedSegments = m.sealedSegments := by
  rw [SessionMeta.keepManualTitle]
  split <;> rfl

@[simp] theorem keepManualTitle_baseSeq (m : SessionMeta ι) (previous : Option (SessionMeta ι)) :
    (m.keepManualTitle previous).baseSeq = m.baseSeq := by
  rw [SessionMeta.keepManualTitle]
  split <;> rfl

def freshFile (cfg : SessionConfig ι) (fresh : SessionMeta ι) (m : Message) : SegmentFile ι :=
  ⟨fresh, [.message m], cfg.metaLen fresh + cfg.rowLen (.message m)⟩

variable {m : Message}

theorem Chain.fresh (h : Chain segs) (hm : Stamped m) {fresh : SessionMeta ι}
    (hbase : fresh.baseSeq = (shownBy segs).length) :
    Chain (segs ++ [freshFile cfg fresh m]) ∧ (freshFile cfg fresh m).shown = [m] :=
  have hstamped : ∀ m' ∈ [m], Stamped m' := forall_mem_singleton.mpr hm
  h.concat_messages hstamped rfl hbase

/-- The meta line of the file after a seal. -/
def sealedMeta (info : SessionInfo ι) (segs : List (SegmentFile ι)) (a : SegmentFile ι) :
    SessionMeta ι :=
  (info.metaFor (segs.length + 1) (shownBy (segs ++ [a])).length).keepManualTitle
    (some a.sessionMeta)

/-- **A seal**: the fresh file counts what is visible before it. -/
theorem LaidOut.appendRowRolling_seals (h : LaidOut files segs (some a))
    (hchain : Chain (segs ++ [a]))
    (hseals : sealsNow cfg files = true) (nextSeq : ℕ) (info : SessionInfo ι) (m : Message) :
    ∃ files', appendRowRolling cfg nextSeq info (.message m) files = .ok (true, files') ∧
      LaidOut files' (segs ++ [a]) (some (freshFile cfg (sealedMeta info segs a) m)) := by
  obtain ⟨hactive, hsegments⟩ := h.renameActive
  have hmeta : files.active.bind DiskFile.sessionMeta = some a.sessionMeta := by
    rw [h.active]
    rfl
  rw [appendRowRolling, if_pos hseals, h.visibleLenFromActive hchain, h.owned, hmeta]
  refine ⟨_, rfl, ?_, hsegments, ?_⟩
  · rw [writeRow, hactive]
    rfl
  · rw [writeRow, hactive, ownedSegments]
    simp [DiskFile.sessionMeta, SessionInfo.metaFor]

theorem stamped_stampThreadId {freshId : String} {m m' : Message}
    (h : stampThreadId freshId m = some m') : Stamped m' := by
  rw [stampThreadId] at h
  split_ifs at h with hsome
  · obtain rfl := Option.some.inj h
    exact .inr hsome
  · obtain ⟨threadId, hderive, rfl⟩ := Option.map_eq_some_iff.mp h
    rw [deriveThreadIdForNewWrite] at hderive
    split at hderive
    next hrole => exact .inl hrole
    · obtain rfl := Option.some.inj hderive
      exact .inr rfl
    · cases hderive
    · cases hderive

theorem LaidOut.appendRowRolling_stays (h : LaidOut files segs tail)
    (hchain : Chain (segs ++ tail.toList)) (hsettled : Settled segs tail)
    (hstays : ¬ sealsNow cfg files = true) (info : SessionInfo ι) (hm : Stamped m) :
    ∃ files' a', appendRowRolling cfg (shownBy (segs ++ tail.toList)).length info
      (.message m) files =
        .ok (false, files') ∧
      LaidOut files' segs (some a') ∧ Chain (segs ++ [a']) ∧
      shownBy (segs ++ [a']) = shownBy (segs ++ tail.toList) ++ [m] := by
  rw [appendRowRolling, if_neg hstays]
  cases tail with
  | some a =>
    obtain ⟨hpushed, hshown⟩ := hchain.push_message hm (a.bytes + cfg.rowLen (.message m))
    refine ⟨_, a.push (.message m) _, rfl, ⟨?_, h.segments, ?_⟩, hpushed, by simp [shownBy, hshown]⟩
    · rw [writeRow, h.active]
      rfl
    · rw [writeRow, h.active]
      exact h.sealed
  | none =>
    obtain rfl := hsettled rfl
    obtain ⟨hfresh, hshown⟩ := @Chain.fresh _ cfg _ _ chain_nil hm (info.metaFor 0 0) rfl
    refine ⟨_, _, rfl, ⟨?_, h.segments, ?_⟩, hfresh, by simp [shownBy, hshown]⟩
    · rw [writeRow, h.active, h.count]
      rfl
    · rw [writeRow, h.active, h.count]
      rfl

theorem LaidOut.exists_of_sealsNow (h : LaidOut files segs tail)
    (hseals : sealsNow cfg files = true) :
    ∃ a, tail = some a := by
  cases tail with
  | some a => exact ⟨a, rfl⟩
  | none =>
    rw [sealsNow, h.active] at hseals
    cases hseals

theorem Shows.addMessage (h : Shows files history) (info : SessionInfo ι) (freshId : String)
    (m : Message) :
    Shows (addMessage cfg info freshId m files) (history ++ (stampThreadId freshId m).toList) := by
  obtain ⟨segs, tail, hlaid, hchain, rfl⟩ := h
  rw [Session.addMessage]
  split
  · exact ⟨segs, tail, hlaid, hchain, by simp [*]⟩
  next m' hstamp =>
    rw [hstamp]
    have hm := stamped_stampThreadId hstamp
    obtain ⟨files', tail', hnext, hlaid', hchain', hsettled, hshown, -⟩ :=
      hlaid.nextCommittedSeq cfg hchain
    rw [hnext]
    dsimp only
    by_cases hseals : sealsNow cfg files' = true
    · obtain ⟨a, rfl⟩ := hlaid'.exists_of_sealsNow hseals
      obtain ⟨files'', happend, hlaid''⟩ := hlaid'.appendRowRolling_seals hchain' hseals
        (shownBy (segs ++ tail.toList)).length info m'
      obtain ⟨hfresh, hshown'⟩ := @Chain.fresh _ cfg _ _ hchain' hm (sealedMeta info segs a)
        (by simp [sealedMeta, SessionInfo.metaFor])
      rw [happend]
      exact ⟨_, _, hlaid'', hfresh, by simp [shownBy, hshown'] at hshown ⊢; simp [hshown]⟩
    · rw [hshown]
      obtain ⟨files'', a', happend, hkept⟩ :=
        hlaid'.appendRowRolling_stays hchain' hsettled hseals info hm
      rw [happend]
      exact ⟨segs, some a', hkept⟩

/-! ## An interrupted seal -/

theorem length_takeWhile_isSome {present : List (DiskFile ι)}
    (hpresent : segments.take present.length = present.map some)
    (hgap : segments[present.length]?.join = none) :
    (segments.takeWhile Option.isSome).length = present.length := by
  induction present generalizing segments with
  | nil =>
    cases segments with
    | nil => rfl
    | cons file rest =>
      cases file with
      | none => rfl
      | some file => cases hgap
  | cons _ _ ih =>
    cases segments with
    | nil => cases hpresent
    | cons =>
      rw [length_cons, take_succ_cons, map_cons, List.cons.injEq] at hpresent
      obtain ⟨rfl, hrest⟩ := hpresent
      rw [takeWhile_cons_of_pos rfl, length_cons, length_cons, ih hrest hgap]

theorem getElem?_setSegment_succ (hn : n ≤ segments.length) :
    (setSegment segments n file)[n + 1]? = segments[n + 1]? := by
  rw [setSegment]
  split_ifs with hlt
  · exact getElem?_set_ne (Nat.succ_ne_self n).symm
  · obtain rfl : n = segments.length := by omega
    rw [getElem?_eq_none (by simp), getElem?_eq_none (by omega)]

theorem LaidOut.interrupted (h : LaidOut files segs (some a))
    (hstray : files.segment (segs.length + 1) = none) :
    LaidOut (Session.renameActive files) (segs ++ [a]) none := by
  obtain ⟨hactive, hsegments⟩ := h.renameActive
  refine ⟨hactive, hsegments, ?_⟩
  have hlength : (segs ++ [a]).length = ((segs ++ [a]).map (·.file)).length := by simp
  rw [ownedSegments, hactive]
  rw [sealedSegmentCount, hlength]
  refine length_takeWhile_isSome ?_ ?_
  · rw [← hlength, hsegments, map_map]
    rfl
  · rw [← hlength, length_append, length_singleton, Session.renameActive, h.active]
    dsimp only [Option.map_some]
    rw [h.owned, getElem?_setSegment_succ h.length_le]
    exact hstray

theorem Shows.addMessageInterrupted (h : Shows files history)
    (hstray : files.segment (ownedSegments files + 1) = none) :
    Shows (addMessageInterrupted cfg files) history := by
  obtain ⟨segs, tail, hlaid, hchain, rfl⟩ := h
  obtain ⟨files', tail', hnext, hlaid', hchain', -, hshown, hsegments⟩ :=
    hlaid.nextCommittedSeq cfg hchain
  rw [Session.addMessageInterrupted, hnext]
  dsimp only
  split_ifs with hseals
  · obtain ⟨a, rfl⟩ := hlaid'.exists_of_sealsNow hseals
    rw [hlaid'.visibleLenFromActive hchain']
    refine ⟨segs ++ [a], none, hlaid'.interrupted ?_, by simpa using hchain', by simp [hshown]⟩
    rw [SessionFiles.segment, hsegments]
    rwa [hlaid.owned] at hstray
  · exact ⟨segs, tail', hlaid', hchain', hshown.symm⟩

/-! ## Rollbacks and rewrites -/

theorem Shows.rollback (h : Shows files history)
    (hlocal : Local n (foldSessionTimeline (sealedTimeline files))
      (foldSessionTimeline (activeTimeline files))) :
    Shows (rollbackLastNUserTurns cfg n files) (dropLastNUserTurns n history).1 := by
  obtain ⟨segs, tail, hlaid, hchain, rfl⟩ := h
  rw [rollbackLastNUserTurns]
  rcases hlaid.loadSessionWindow cfg hchain unlimited with
    ⟨rfl, rfl, hload⟩ | ⟨files', a, hlaid', hchain', hshown, hload⟩
  · rw [hload, dropLastNUserTurns_fst]
    exact ⟨[], none, hlaid, hchain, rfl⟩
  · have htail : foldSessionTimeline (rowsOf tail.toList) = a.shown := by
      rw [hshown]
      exact hchain.separate _ (suffix_append ..).isInfix
    rw [hlaid.sealedTimeline, hlaid.activeTimeline, htail, hchain'.of_append.fold] at hlocal
    rw [hload, shownBy_append, ← hshown, dropLastNUserTurns_append hlocal]
    dsimp only
    split_ifs with hnone
    · -- the window has no turn to drop, and so the active file has none
      obtain ⟨j, -, hfold, -⟩ := hlaid'.fold_window cfg hchain' unlimited
      rw [hfold, Nat.min_eq_zero_iff] at hnone
      have hsame : (dropLastNUserTurns n a.shown).1 = a.shown := by
        rcases hnone with rfl | hcount
        · rfl
        · simp [dropLastNUserTurns, userThreads_right (length_eq_zero_iff.mp hcount)]
      exact ⟨segs, some a, hlaid', hchain', by rw [hsame]; simp [shownBy]⟩
    · -- The marker is the new last row of the active file.
      obtain ⟨hpushed, hshown'⟩ := hchain'.push_rollback hlocal (a.bytes + cfg.rowLen (.rollback n))
      refine ⟨segs, some _, ⟨?_, ?_, ?_⟩, hpushed, by simp [shownBy, hshown']⟩
      · rw [appendRollbackMarker, hlaid'.active]
        rfl
      · rw [appendRollbackMarker, hlaid'.active]
        exact hlaid'.segments
      · rw [appendRollbackMarker, hlaid'.active]
        exact hlaid'.sealed

theorem take_mapIdx_of_le {α : Type} {f : ℕ → α → α} {xs : List α}
    (hf : ∀ i < n, ∀ x, f i x = x) : (xs.mapIdx f).take n = xs.take n := by
  refine ext_getElem? fun i => ?_
  rw [getElem?_take, getElem?_take, getElem?_mapIdx]
  split_ifs with hi
  · cases xs[i]? with
    | none => rfl
    | some x => exact congrArg some (hf i hi x)
  · rfl

/-- **A rewrite** leaves the segments it did not load, followed by the messages it was given. -/
theorem LaidOut.rewriteWith (cfg : SessionConfig ι) (h : LaidOut files segs tail)
    (hchain : Chain (segs ++ tail.toList)) (info : SessionInfo ι) (budget : ℕ) (leftBehind : List ℕ)
    (edit : List StampedMessage → List StampedMessage) :
    ∃ j ≤ segs.length, ∃ a,
      (Session.openSession cfg info budget files).1.messages.map (·.1) =
        shownBy (segs.drop j) ++ shownBy tail.toList ∧
      LaidOut (rewriteWith cfg info budget leftBehind edit files) (segs.take j) (some a) ∧
      Chain (segs.take j ++ [a]) ∧
      a.shown = (edit (Session.openSession cfg info budget files).1.messages).map (·.1) := by
  obtain ⟨tail', hlaid, hchain', hsettled, j, hj, hmessages, hbase, hsealed, hloaded⟩ :=
    h.openSession cfg hchain info budget
  generalize hopened : Session.openSession cfg info budget files = opened at *
  have hremaining : opened.1.sealedSegments - opened.1.loadedSealed = j := by omega
  -- The opened session names its segments, so none is forgotten.
  have hnamed :
      ¬ ((!(opened.2.active.any (·.namesSealed))) = true ∧ 0 < sealedSegmentCount opened.2) := by
    rintro ⟨hactive, hcount⟩
    cases tail' with
    | some a =>
      rw [hlaid.active] at hactive
      cases hactive
    | none =>
      rw [hlaid.count, hsettled rfl] at hcount
      exact absurd hcount (lt_irrefl 0)
  rw [Session.rewriteWith]
  rw [hopened, rewriteActiveFromWindow, if_neg hnamed]
  dsimp only
  rw [hremaining]
  have hrest : Chain (segs.take j) := by
    rw [← take_append_drop j segs, append_assoc] at hchain
    exact hchain.of_append
  have hstamped : ∀ m ∈ (edit opened.1.messages).map (·.1), Stamped m := by
    intro m hm
    obtain ⟨m', -, rfl⟩ := mem_map.mp hm
    exact m'.2
  generalize hmeta : (opened.1.info.metaFor j opened.1.baseSeq).keepManualTitle
    (opened.2.active.bind DiskFile.sessionMeta) = sessionMeta
  -- The new active file continues the segments that were not loaded.
  obtain ⟨hwritten, hshown⟩ := hrest.concat_messages
    (s := ⟨sessionMeta, (edit opened.1.messages).map fun m => .message m.1,
      cfg.metaLen sessionMeta +
        (((edit opened.1.messages).map fun m => SessionTimelineItem.message m.1).map
          cfg.rowLen).sum⟩)
    hstamped map_map.symm
    (by rw [← hmeta, keepManualTitle_baseSeq, ← hbase]; rfl)
  refine ⟨j, hj, _, hmessages, ⟨rfl, ?_, ?_⟩, hwritten, hshown⟩
  · rw [length_take_of_le hj, take_mapIdx_of_le, map_take, ← hlaid.segments,
      take_take, Nat.min_eq_left hj]
    rintro i hi file
    exact if_neg fun hremoved => absurd hremoved.1 (Nat.not_le_of_lt hi)
  · rw [ownedSegments, length_take_of_le hj]
    simp [DiskFile.sessionMeta, ← hmeta, SessionInfo.metaFor]

/-- What an operation makes of a list of messages. A rewrite replaces the end that is loaded with
its budget. -/
def Op.Acts (cfg : SessionConfig ι) (files : SessionFiles ι) (history history' : List Message) :
    Op ι → Prop
  | .append _ freshId m => history' = history ++ (stampThreadId freshId m).toList
  | .interruptedAppend => history' = history
  | .rollback numTurns => history' = (dropLastNUserTurns numTurns history).1
  | .rewrite info budget _ edit =>
    let loaded := (openSession cfg info budget files).1.messages
    ∃ before, history = before ++ loaded.map (·.1) ∧ history' = before ++ (edit loaded).map (·.1)

theorem Shows.rewrite (h : Shows files history) (info : SessionInfo ι) (budget : ℕ)
    (leftBehind : List ℕ)
    (edit : List StampedMessage → List StampedMessage) :
    ∃ history', (Op.rewrite info budget leftBehind edit).Acts cfg files history history' ∧
      Shows (rewriteWith cfg info budget leftBehind edit files) history' := by
  obtain ⟨segs, tail, hlaid, hchain, rfl⟩ := h
  obtain ⟨j, -, a, hmessages, hlaid', hchain', hshown⟩ :=
    hlaid.rewriteWith cfg hchain info budget leftBehind edit
  refine ⟨_, ⟨shownBy (segs.take j), ?_, rfl⟩, _, some a, hlaid',
    hchain', by simp [shownBy, hshown]⟩
  rw [hmessages, ← append_assoc, ← shownBy_append, take_append_drop, shownBy_append]

/-- The condition on a step. A rollback concerns rows of the active file alone: its last turns have
no row in a segment, and when it has fewer of them than asked for there are none in the segments. A
seal is interrupted with no stray file behind the segment it writes. -/
def StepMeets (files : SessionFiles ι) : Op ι → Prop
  | .rollback numTurns =>
    Local numTurns (foldSessionTimeline (sealedTimeline files))
      (foldSessionTimeline (activeTimeline files))
  | .interruptedAppend => (files.segment (ownedSegments files + 1)).isNone
  | .append _ _ _ => True
  | .rewrite _ _ _ _ => True

instance decidableStepMeets (files : SessionFiles ι) (op : Op ι) : Decidable (StepMeets files op) :=
  match op with
  | .rollback n => decidableLocal n _ _
  | .interruptedAppend => inferInstanceAs (Decidable (_ = true))
  | .append _ _ _ => isTrue trivial
  | .rewrite _ _ _ _ => isTrue trivial

/-- **Every operation** keeps the chain, and acts on what it shows. -/
theorem Shows.step (h : Shows files history) {op : Op ι} (hop : StepMeets files op) :
    ∃ history', op.Acts cfg files history history' ∧ Shows (step cfg files op) history' := by
  cases op with
  | append info freshId m => exact ⟨_, rfl, h.addMessage info freshId m⟩
  | interruptedAppend => exact ⟨_, rfl, h.addMessageInterrupted (Option.isNone_iff_eq_none.mp hop)⟩
  | rollback n => exact ⟨_, rfl, h.rollback hop⟩
  | rewrite info budget leftBehind edit => exact h.rewrite info budget leftBehind edit

/-- The messages after a sequence of operations. -/
inductive History (cfg : SessionConfig ι) : List (Op ι) → List Message → Prop
  | nil : History cfg [] []
  | snoc {ops : List (Op ι)} {op : Op ι} {history history' : List Message} :
      History cfg ops history → op.Acts cfg (runSteps (step cfg) .empty ops) history history' →
      History cfg (ops ++ [op]) history'

/-- **Every run** whose steps meet the condition shows a history. -/
theorem shows_run {ops : List (Op ι)}
    (hops : Guarded (step cfg) StepMeets (SessionFiles.empty : SessionFiles ι) ops) :
    ∃ history, History cfg ops history ∧
      Shows (runSteps (step cfg) SessionFiles.empty ops) history := by
  refine hops.induction_snoc (P := fun ops => ∃ history, History cfg ops history ∧
    Shows (runSteps (step cfg) .empty ops) history) ?_ fun ops op ⟨_, hhistory, hshows⟩ hop => ?_
  · exact ⟨[], .nil, [], none, ⟨rfl, rfl, rfl⟩, chain_nil, rfl⟩
  · obtain ⟨history', hacts, hshows'⟩ := hshows.step hop
    rw [runSteps_snoc]
    exact ⟨history', hhistory.snoc hacts, hshows'⟩

theorem kept_run {ops : List (Op ι)}
    (hops : Guarded (step cfg) StepMeets (SessionFiles.empty : SessionFiles ι) ops) :
    ∃ segs tail, LaidOut (runSteps (step cfg) SessionFiles.empty ops) segs tail ∧
      Chain (segs ++ tail.toList) := by
  obtain ⟨-, -, segs, tail, hlaid, hchain, -⟩ := shows_run hops
  exact ⟨segs, tail, hlaid, hchain⟩

end Octos.Session
