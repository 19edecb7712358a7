import Octos.Supervision.Ledger

/-!
# Consistency of the supervisor's files

What the files have to do with the rows committed so far: every ledger file holds consecutive rows,
the ledger all of them from its start on, and the snapshot is the fold of a prefix that reaches the
start of the ledger. The operations of a writer keep this, and a reader that reads the ledger before
the snapshot gets the fold of a prefix.
-/

namespace Octos.Supervision

open LedgerRow List Option SupervisorState

/-! ## Folds -/

variable (rows : List LedgerRow)

theorem lastSequence_foldRows : (foldRows rows).lastSequence = highest sequence rows := by
  induction rows using List.reverseRecOn with
  | nil => rfl
  | append_singleton rows row ih =>
    rw [foldRows, runSteps_snoc, lastSequence_applyLedgerRow, highest_snoc]
    exact congrArg (max · row.sequence) ih

def snapshotOf (rows : List LedgerRow) : Snapshot :=
  ⟨highest LedgerRow.sequence rows, foldRows rows⟩

theorem loadState_snapshotOf (rows covered : List LedgerRow) :
    loadState rows (some (snapshotOf covered)) =
      runSteps applyLedgerRow (foldRows covered)
        (rows.filter fun row => decide (highest sequence covered < row.sequence)) := by
  have hlast : max (foldRows covered).lastSequence (highest sequence covered) =
      (foldRows covered).lastSequence := by rw [lastSequence_foldRows, max_self]
  simp only [loadState, elim_some, snapshotOf, hlast]
  rfl

namespace LedgerFile

/-! ## Writing rows -/

variable (file : LedgerFile)

theorem rows_push_row (r : LedgerRow) (terminated : Bool) :
    (file.push (.row r) terminated).rows = file.rows ++ [r] := by
  simp [rows, push, Line.row?]

theorem rows_push_torn (bytes : ℕ) (valid terminated : Bool) :
    (file.push (.torn bytes valid) terminated).rows = file.rows := by
  simp [rows, push, Line.row?]

@[simp] theorem rows_writeAllRows (rs : List LedgerRow) :
    (file.writeAllRows rs).rows = file.rows ++ rs := by
  have hrows : (rs.map Line.row).filterMap Line.row? = rs := by
    rw [filterMap_map]
    exact filterMap_some
  rw [rows, writeAllRows, filterMap_append, hrows]
  rfl

variable (text : LedgerRow → List Char)

theorem writeRows_spec (file : LedgerFile) (rs : List LedgerRow)
    (bytes : ℕ) : ∃ written, written <+: rs ∧
    (file.writeRows text rs bytes).rows = file.rows ++ written ∧
      (file.writeRows text rs bytes).start = file.start := by
  induction rs generalizing file bytes with
  | nil => exact ⟨[], prefix_rfl, by simp [writeRows], rfl⟩
  | cons r rs ih =>
    rw [writeRows]
    split_ifs
    · exact ⟨[], List.nil_prefix, (append_nil _).symm, rfl⟩
    · exact ⟨[], List.nil_prefix, by rw [rows_push_torn, append_nil], rfl⟩
    · exact ⟨[r], ⟨rs, rfl⟩, rows_push_row file r false, rfl⟩
    · obtain ⟨written, hpre, hrows, hstart⟩ :=
        ih (file.push (.row r) true) (bytes - rowSize text r - 1)
      refine ⟨r :: written, (prefix_cons_inj r).mpr hpre, ?_, hstart⟩
      rw [hrows, rows_push_row, append_assoc, singleton_append]

theorem writeRowsSealed_spec (file : LedgerFile) (rs : List LedgerRow)
    (bytes : ℕ) : ∃ written, written <+: rs ∧
      (file.writeRowsSealed text rs bytes).rows = file.rows ++ written ∧
      (file.writeRowsSealed text rs bytes).start = file.start := by
  rw [writeRowsSealed]
  split_ifs
  · exact writeRows_spec text file rs bytes
  · exact ⟨[], List.nil_prefix, (append_nil _).symm, rfl⟩
  · exact writeRows_spec text { file with terminated := true } rs (bytes - 1)

end LedgerFile

namespace Store

/-! ## The invariant -/

/-- The files agree with the rows committed so far. -/
structure Consistent (s : Store) : Prop where
  increasing : Increasing LedgerRow.sequence s.committed
  ledger_isSome : s.live → s.ledger.isSome
  file_start : ∀ file ∈ s.files, file.start ≤ s.compacted
  file_rows : ∀ file ∈ s.files, file.rows <+: s.committed.drop file.start
  ledger_rows : ∀ file, s.ledger = some file → file.rows = s.committed.drop file.start
  compacted_le : s.compacted ≤ s.committed.length
  snapshot_eq : ∀ snapshot, s.snapshot = some snapshot →
    ∃ m, s.compacted ≤ m ∧ m ≤ s.committed.length ∧ snapshot = snapshotOf (s.committed.take m)
  snapshot_none : s.snapshot = none → s.compacted = 0 ∨ s.compacted < s.committed.length

/-- The snapshot is there, or no row has left the ledger. -/
def snapshotReadable (s : Store) : Bool := s.snapshot.isSome || s.compacted == 0

variable {s s' : Store}

theorem compacted_of_snapshotReadable (h : s.snapshotReadable) (hnone : s.snapshot = none) :
    s.compacted = 0 := by
  simpa [snapshotReadable, hnone] using h

/-- From `s` to `s'` only the lock, the cursors, the temporary file and the loads changed. -/
structure SameFiles (s s' : Store) : Prop where
  files : s'.files = s.files
  live : s'.live = s.live
  snapshot : s'.snapshot = s.snapshot
  committed : s'.committed = s.committed

theorem SameFiles.refl (s : Store) : SameFiles s s := ⟨rfl, rfl, rfl, rfl⟩

theorem SameFiles.ledger (h : SameFiles s s') : s'.ledger = s.ledger := by
  rw [Store.ledger, Store.ledger, h.live, h.files]

theorem SameFiles.compacted (h : SameFiles s s') : s'.compacted = s.compacted := by
  rw [Store.compacted, Store.compacted, h.ledger, h.committed]

theorem Consistent.of_sameFiles (hs : s.Consistent) (h : SameFiles s s') : s'.Consistent := by
  refine ⟨?_, ?_, ?_, ?_, ?_, ?_, ?_, ?_⟩ <;>
    simp only [h.files, h.live, h.snapshot, h.committed, h.ledger, h.compacted]
  exacts [hs.increasing, hs.ledger_isSome, hs.file_start, hs.file_rows, hs.ledger_rows,
    hs.compacted_le, hs.snapshot_eq, hs.snapshot_none]

theorem consistent_initial : ({} : Store).Consistent where
  increasing := .nil
  ledger_isSome := nofun
  file_start := by simp
  file_rows := by simp
  ledger_rows := nofun
  compacted_le := le_refl 0
  snapshot_eq := nofun
  snapshot_none := fun _ => .inl rfl

namespace Consistent

variable {s : Store}

/-! ## Reading -/

variable (hs : s.Consistent)
include hs

/-- **Rows of a ledger over the snapshot.** Rows from a point that has been compacted by now are
replayed to the fold of a prefix that has them all. -/
theorem loadState_eq (hsnapshot : s.snapshotReadable) {k e : ℕ} (hk : k ≤ s.compacted)
    (he : e ≤ s.committed.length) :
    ∃ m, e ≤ m ∧ m ≤ s.committed.length ∧
      loadState ((s.committed.take e).drop k) s.snapshot = foldRows (s.committed.take m) := by
  cases hsnap : s.snapshot with
  | none =>
    obtain rfl : k = 0 := Nat.le_zero.mp (compacted_of_snapshotReadable hsnapshot hsnap ▸ hk)
    refine ⟨e, le_refl e, he, ?_⟩
    have hreplay := hs.increasing.replay applyLedgerRow {} (le_refl 0) (Nat.zero_le _) e
    exact hreplay
  | some snapshot =>
    obtain ⟨m, hm, hmn, rfl⟩ := hs.snapshot_eq snapshot hsnap
    refine ⟨max m e, le_max_right m e, max_le hmn he, ?_⟩
    rw [loadState_snapshotOf]
    exact hs.increasing.replay applyLedgerRow {} (hk.trans hm) hmn e

variable {rows : List LedgerRow}

theorem rows_of_readLedgerRows (h : s.readLedgerRows = .ok rows) :
    rows = s.committed.drop s.compacted := by
  rw [readLedgerRows] at h
  rw [compacted]
  split at h
  · rename_i hledger
    cases h
    rw [hledger, elim_none, drop_length]
  · rename_i file hledger
    split_ifs at h
    cases h
    rw [hledger, elim_some]
    exact hs.ledger_rows file hledger

theorem loadState_ledger (hsnapshot : s.snapshotReadable)
    (h : s.readLedgerRows = .ok rows) : loadState rows s.snapshot = foldRows s.committed := by
  obtain ⟨m, hm, hmn, hload⟩ :=
    hs.loadState_eq hsnapshot (le_refl s.compacted) (le_refl s.committed.length)
  obtain rfl : m = s.committed.length := le_antisymm hmn hm
  rw [take_length] at hload
  rw [hs.rows_of_readLedgerRows h, hload]

/-! ## Sequences -/

theorem highest_reseed :
    max (s.snapshot.elim 0 Snapshot.lastSequence)
      (highest sequence (s.committed.drop s.compacted)) =
      highest sequence s.committed := by
  cases hsnap : s.snapshot with
  | none =>
    rw [elim_none, Nat.zero_max]
    rcases hs.snapshot_none hsnap with h | h
    · rw [h, drop_zero]
    · exact hs.increasing.highest_drop h
  | some snapshot =>
    obtain ⟨m, hm, -, rfl⟩ := hs.snapshot_eq snapshot hsnap
    -- The snapshot reaches the start of the ledger, and neither is above the committed rows.
    apply le_antisymm
    · refine max_le (highest_le fun r hr => le_highest (mem_of_mem_take hr))
        (highest_le fun r hr => le_highest (mem_of_mem_drop hr))
    · refine highest_le fun r hr => ?_
      rw [← take_append_drop s.compacted s.committed, mem_append] at hr
      rcases hr with hr | hr
      · rw [← min_eq_left hm, ← take_take] at hr
        have hmem : r ∈ s.committed.take m := mem_of_mem_take hr
        exact le_max_of_le_left (le_highest hmem)
      · exact le_max_of_le_right (le_highest hr)

theorem lastRowSequence_eq {q : ℕ} (h : s.ledger.bind LedgerFile.lastRowSequence = some q) :
    q = highest sequence s.committed ∧ s.compacted < s.committed.length := by
  obtain ⟨file, hledger, hlast⟩ := bind_eq_some_iff.mp h
  obtain ⟨r, hr, rfl⟩ := map_eq_some_iff.mp hlast
  obtain ⟨line, hline, hrow⟩ := bind_eq_some_iff.mp hr
  obtain ⟨init, hlines⟩ := getLast?_eq_some_iff.mp hline
  have hrows : file.rows = init.filterMap Line.row? ++ [r] := by
    rw [LedgerFile.rows, hlines, filterMap_append]
    simp [hrow]
  rw [hs.ledger_rows file hledger] at hrows
  have hcommitted :
      s.committed = (s.committed.take file.start ++ init.filterMap Line.row?) ++ [r] := by
    rw [append_assoc, ← hrows, take_append_drop]
  constructor
  · refine (hs.increasing.highest_eq_of_getLast? ?_).symm
    rw [hcommitted]
    exact getLast?_concat
  · rw [compacted, hledger, elim_some]
    by_contra hle
    rw [drop_eq_nil_of_le (not_lt.mp hle)] at hrows
    simp at hrows

/-- **The cursor is brought to the highest committed sequence**, and counts rows only if there are
some. -/
theorem refreshSeqCache_eq {text : LedgerRow → List Char} {cache cache' : SeqCache}
    (h : s.refreshSeqCache text cache = .ok cache') :
    cache'.lastSequence = highest sequence s.committed ∧
      (0 < cache'.ledgerRows → s.compacted < s.committed.length) := by
  simp only [refreshSeqCache] at h
  split_ifs at h with hfast
  · cases h
    simp only [Bool.and_eq_true, beq_iff_eq] at hfast
    obtain ⟨hlast, hlt⟩ := hs.lastRowSequence_eq hfast.2
    exact ⟨hlast, fun _ => hlt⟩
  · simp only [reseedCache] at h
    cases hrows : s.readLedgerRows with
    | error e => rw [hrows] at h; cases h
    | ok rows =>
      rw [hrows] at h
      cases h
      obtain rfl := hs.rows_of_readLedgerRows hrows
      refine ⟨hs.highest_reseed, fun hpos => ?_⟩
      rw [length_drop] at hpos
      exact Nat.lt_of_sub_pos hpos

end Consistent

/-! ## Growing files -/

/-- What a reader relies on: rows are committed at the end, the start of the ledger moves up, and a
file only gets more rows. -/
structure Grows (s s' : Store) : Prop where
  committed : s.committed <+: s'.committed
  compacted : s.compacted ≤ s'.compacted
  files : ∀ (i : ℕ) (file : LedgerFile), s.files[i]? = some file → ∃ file' : LedgerFile,
    s'.files[i]? = some file' ∧ file'.start = file.start ∧ file.rows.length ≤ file'.rows.length

theorem SameFiles.grows {s s' : Store} (h : SameFiles s s') : Grows s s' where
  committed := h.committed ▸ prefix_rfl
  compacted := h.compacted.ge
  files := fun _ file hi => ⟨file, h.files ▸ hi, rfl, le_refl _⟩

theorem start_openLedger (s : Store) : s.openLedger.start = s.compacted := by
  rw [openLedger, compacted]
  cases s.ledger with
  | none => rfl
  | some file => rfl

theorem Consistent.rows_openLedger {s : Store} (hs : s.Consistent) :
    s.openLedger.rows = s.committed.drop s.compacted := by
  rw [openLedger, compacted]
  cases hledger : s.ledger with
  | none =>
    rw [elim_none, drop_length]
    rfl
  | some file => exact hs.ledger_rows file hledger

theorem ledger_setLedger (s : Store) (file : LedgerFile) :
    (s.setLedger file).ledger = some file := by
  exact getLast?_concat

section

variable {s : Store} {file : LedgerFile} {new : List LedgerRow}

theorem compacted_setLedger (hstart : file.start = s.openLedger.start) :
    (s.setLedger file).compacted = s.compacted := by
  rw [compacted, ledger_setLedger, elim_some, hstart, start_openLedger]

theorem committed_setLedger (hrows : file.rows = s.openLedger.rows ++ new) :
    (s.setLedger file).committed = s.committed ++ new := by
  rw [setLedger]
  rw [hrows, drop_left]

theorem mem_files_setLedger {f : LedgerFile} (h : f ∈ (s.setLedger file).files) :
    f ∈ s.files ∨ f = file := by
  rcases mem_append.mp h with h | h
  · split_ifs at h
    · exact .inl ((dropLast_sublist _).subset h)
    · exact .inl h
  · exact .inr (mem_singleton.mp h)

section

variable (hs : s.Consistent) (hstart : file.start = s.openLedger.start)
  (hrows : file.rows = s.openLedger.rows ++ new)
include hs hstart hrows

theorem Consistent.setLedger
    (hnew : Increasing sequence (s.committed ++ new)) : (s.setLedger file).Consistent := by
  have hcompacted : (s.setLedger file).compacted = s.compacted := compacted_setLedger hstart
  have hcommitted : (s.setLedger file).committed = s.committed ++ new := committed_setLedger hrows
  -- The rows of the file are all rows from its start on.
  have hall : file.rows = (s.committed ++ new).drop file.start := by
    rw [hrows, hstart, start_openLedger, hs.rows_openLedger,
      drop_append_of_le_length hs.compacted_le]
  have hle : s.committed.length ≤ (s.committed ++ new).length := by simp
  refine ⟨?_, ?_, ?_, ?_, ?_, ?_, ?_, ?_⟩
  · rwa [hcommitted]
  · intro _
    rw [ledger_setLedger]
    rfl
  · intro f hf
    rw [hcompacted]
    rcases mem_files_setLedger hf with hf | rfl
    · exact hs.file_start f hf
    · rw [hstart, start_openLedger]
  · intro f hf
    rw [hcommitted]
    rcases mem_files_setLedger hf with hf | rfl
    · refine (hs.file_rows f hf).trans ?_
      rw [drop_append_of_le_length ((hs.file_start f hf).trans hs.compacted_le)]
      exact prefix_append ..
    · exact hall ▸ prefix_rfl
  · intro f hf
    obtain rfl : file = f := some.inj ((ledger_setLedger s file).symm.trans hf)
    rw [hcommitted, hall]
  · rw [hcompacted, hcommitted]
    exact hs.compacted_le.trans hle
  · intro snapshot hsnapshot
    obtain ⟨m, hm, hmn, rfl⟩ := hs.snapshot_eq snapshot hsnapshot
    rw [hcompacted, hcommitted]
    exact ⟨m, hm, hmn.trans hle, by rw [take_append_of_le_length hmn]⟩
  · intro hnone
    rw [hcompacted, hcommitted]
    exact (hs.snapshot_none hnone).imp_right fun h => h.trans_le hle

theorem Consistent.grows_setLedger : Grows s (s.setLedger file) := by
  refine ⟨?_, (compacted_setLedger hstart).ge, fun i f hi => ?_⟩
  · exact prefix_append ..
  · by_cases hlive : s.live
    · -- The ledger is the last file; the files before it stay.
      obtain ⟨last, hlast⟩ := isSome_iff_exists.mp (hs.ledger_isSome hlive)
      have hopen : s.openLedger = last := by rw [openLedger, hlast, getD_some]
      rw [ledger, if_pos hlive] at hlast
      obtain ⟨init, hfiles⟩ := getLast?_eq_some_iff.mp hlast
      have hfiles' : (s.setLedger file).files = init ++ [file] := by
        rw [Store.setLedger]
        rw [if_pos hlive, hfiles, dropLast_concat]
      rw [hfiles] at hi
      rw [hfiles']
      rcases lt_or_ge i init.length with hlt | hge
      · rw [getElem?_append_left hlt] at hi ⊢
        exact ⟨f, hi, rfl, le_refl _⟩
      · rw [getElem?_append_right hge] at hi ⊢
        obtain ⟨hindex, hf⟩ := List.getElem?_eq_some_iff.mp hi
        obtain hzero : i - init.length = 0 := by simpa using hindex
        rw [hzero] at hi ⊢
        obtain rfl : last = f := some.inj hi
        refine ⟨file, rfl, hopen ▸ hstart, ?_⟩
        rw [hrows, hopen, length_append]
        exact Nat.le_add_right ..
    · refine ⟨f, ?_, rfl, le_refl _⟩
      rw [Store.setLedger]
      rw [if_neg hlive, getElem?_append_left (List.getElem?_eq_some_iff.mp hi).1]
      exact hi

end

end

/-! ## Snapshots and rotation -/

section

variable {s : Store}

theorem Consistent.removeSnapshot (hs : s.Consistent) (h : s.compacted < s.committed.length) :
    ({ s with snapshot := none } : Store).Consistent :=
  { hs with
    snapshot_eq := nofun
    snapshot_none := fun _ => .inr h }

theorem Consistent.installSnapshot (hs : s.Consistent) (snapshotTmp : Option Snapshot) :
    ({ s with
        snapshot := some (snapshotOf s.committed)
        snapshotTmp := snapshotTmp } : Store).Consistent :=
  { hs with
    snapshot_eq := fun snapshot hsome => by
      cases hsome
      exact ⟨s.committed.length, hs.compacted_le, le_refl _, by simp⟩
    snapshot_none := fun hnone => by cases hnone }

theorem Consistent.rotate (hs : s.Consistent) (h : s.snapshot = some (snapshotOf s.committed)) :
    ({ s with live := false } : Store).Consistent where
  increasing := hs.increasing
  ledger_isSome := nofun
  file_start := fun file hfile => (hs.file_start file hfile).trans hs.compacted_le
  file_rows := hs.file_rows
  ledger_rows := nofun
  compacted_le := le_refl _
  snapshot_eq := fun snapshot hsnapshot => by
    obtain rfl : snapshotOf s.committed = snapshot := some.inj (h.symm.trans hsnapshot)
    exact ⟨s.committed.length, le_refl _, le_refl _, by simp⟩
  snapshot_none := fun hnone => by
    have hsome : ({ s with live := false } : Store).snapshot = some (snapshotOf s.committed) := h
    rw [hsome] at hnone
    cases hnone

theorem Consistent.grows_rotate (hs : s.Consistent) :
    Grows s ({ s with live := false } : Store) where
  committed := prefix_rfl
  compacted := hs.compacted_le
  files := fun _ file hi => ⟨file, hi, rfl, le_refl _⟩

end

end Store

end Octos.Supervision
