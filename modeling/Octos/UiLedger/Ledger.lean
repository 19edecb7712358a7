import Octos.UiLedger.Disk
import Octos.Base.Runs

/-!
# A session of the UI ledger

`ui_protocol_ledger.rs`, a durable `UiProtocolLedger` seen from one session: its ring in memory, its
directory, and its entry in the index that recovery builds at start. An append writes the log before
the ring; eviction and restart drop the ring, and the next use of the session reads it back.

The calls run one after another. Writes of the log and reads of files succeed; a write of the
snapshot file may fail, which the code ignores. `published` lists what `publish_live` was given, the
events appended so far.
-/

namespace Octos.UiLedger

variable {Body : Type}

/-! ## State -/

structure SessionLedger (Body : Type) where
  nextSeq : ℕ
  entries : List (LedgerEntry Body)
  activeLogPath : Option ℕ
  activeLogBytes : ℕ

def SessionLedger.new : SessionLedger Body := ⟨0, [], none, 0⟩

structure SessionIndexEntry where
  reconciled : Bool
  failed : Option String

/-- One session of a durable ledger. `clock` names the next log file. -/
structure Ledger (Body : Type) where
  clock : ℕ
  dir : Option (SessionDir Body)
  session : Option (SessionLedger Body)
  index : Option SessionIndexEntry
  published : List (LedgeredUiProtocolEvent Body)

/-- The directory, which the first write creates. -/
def Ledger.directory (L : Ledger Body) : SessionDir Body := L.dir.getD ⟨[], none⟩

def Ledger.start : Ledger Body := ⟨0, none, none, none, []⟩

/-- Recovery found records it cannot read. -/
inductive LedgerError
  | recoverSession (reason : String)

/-- The extra data of `cursor_out_of_range_error`. -/
structure RetainedRange where
  retainedSeq : ℕ
  oldestRetainedSeq : Option ℕ

/-- `RpcError`, the errors of the readers. -/
inductive RpcError
  | cursorStreamMismatch (expected actual : String)
  | cursorOutOfRange (after ledgerHead : UiCursor) (retained : Option RetainedRange)
  | ledger (error : LedgerError)

def hydrateSessionFromSnapshot (snapshot : DiskSessionSnapshot Body) : SessionLedger Body where
  nextSeq := snapshot.headSeq
  entries := snapshot.retainedEntries
  activeLogPath := some snapshot.activeLogPath
  activeLogBytes := snapshot.activeLogBytes

def writeSessionSnapshot (session : SessionLedger Body) (dir : SessionDir Body) : SessionDir Body :=
  { dir with
    snapshot := some ⟨sessionSnapshotVersion, session.nextSeq, session.entries.map (·.record)⟩ }

/-! ## Appending -/

/-- What an append is given: the event, its time, marks and origin; and what the world decides: the
length of its log line, and whether a snapshot due after it gets written. -/
structure AppendInput (Body : Type) where
  event : UiProtocolLedgerEvent Body
  recordedAt : ℕ
  externalPrompt : Bool
  fromConnection : Option ℕ
  lineBytes : ℕ
  snapshotWritten : Bool

/-- The file an append writes to, with the logs that are left. -/
structure ActiveLog (Body : Type) where
  path : ℕ
  bytes : ℕ
  logs : List (LogFile Body)
  clock : ℕ

section

variable (cfg : LedgerConfig) (stream : String)

/-- How many of the oldest logs a rotation deletes: the new file takes the place of one. -/
def trimCount (logs : List (LogFile Body)) : ℕ := logs.length - (cfg.retainedLogFiles - 1)

/-- `rotate_locked`, the logs it leaves. -/
def rotateLocked (logs : List (LogFile Body)) : List (LogFile Body) :=
  logs.drop (trimCount cfg logs)

/-- The first half of `write_record_locked`: open the first log, or rotate a full one. -/
def openActiveLog (clock : ℕ) (session : SessionLedger Body) (logs : List (LogFile Body)) :
    ActiveLog Body :=
  match session.activeLogPath with
  | none => ⟨clock, 0, logs, clock + 1⟩
  | some path =>
    if cfg.rotateBytes ≤ session.activeLogBytes then
      ⟨clock, 0, rotateLocked cfg logs, clock + 1⟩
    else ⟨path, session.activeLogBytes, logs, clock⟩

/-- Write one line to the file of that name, which is created when missing. -/
def appendLine (path lineBytes : ℕ) (r : LedgerDiskRecord Body) :
    List (LogFile Body) → List (LogFile Body)
  | [] => [⟨path, lineBytes, [r]⟩]
  | file :: rest =>
    if file.name = path then
      { file with bytes := file.bytes + lineBytes, records := file.records ++ [r] } :: rest
    else file :: appendLine path lineBytes r rest

/-- The event of an append, stamped with its cursor. -/
def AppendInput.ledgered (input : AppendInput Body) (seq : ℕ) : LedgeredUiProtocolEvent Body where
  cursor := ⟨stream, seq⟩
  recordedAt := some input.recordedAt
  event := input.event.withCursor ⟨stream, seq⟩
  fromConnection := input.fromConnection
  externalPrompt := input.externalPrompt

def LedgeredUiProtocolEvent.record (e : LedgeredUiProtocolEvent Body) : LedgerDiskRecord Body :=
  ⟨ledgerDiskVersion, e.event.cursorSeq e.cursor.seq, e.event, e.recordedAt, e.externalPrompt⟩

def LedgeredUiProtocolEvent.entry (e : LedgeredUiProtocolEvent Body) : LedgerEntry Body :=
  ⟨e.cursor.seq, e.event, e.recordedAt, e.externalPrompt⟩

def snapshotDue (seq : ℕ) : Bool := 0 < cfg.snapshotEveryEvents ∧ seq % cfg.snapshotEveryEvents = 0

/-- `append_locked` on the session in memory, with `published` for `publish_live`. -/
def appendTo (session : SessionLedger Body) (input : AppendInput Body) (L : Ledger Body) :
    Ledger Body :=
  let dir := L.directory
  let event := input.ledgered stream (saturatingAddU64 session.nextSeq 1)
  let active := openActiveLog cfg L.clock session dir.logs
  let session : SessionLedger Body :=
    { nextSeq := event.cursor.seq
      entries := keepLast cfg.retainedPerSession (session.entries ++ [event.entry])
      activeLogPath := some active.path
      activeLogBytes := saturatingAddU64 active.bytes input.lineBytes }
  let dir := { dir with logs := appendLine active.path input.lineBytes event.record active.logs }
  { L with
    clock := active.clock
    dir := some
      (if snapshotDue cfg event.cursor.seq && input.snapshotWritten then
        writeSessionSnapshot session dir else dir)
    session := some session
    published := L.published ++ [event] }

/-- The session an append goes to: one that is not in memory starts from the preloaded snapshot, or
new. -/
def appendBase (preloadSnapshot : Option (DiskSessionSnapshot Body)) (L : Ledger Body) :
    SessionLedger Body :=
  L.session.getD ((preloadSnapshot.map hydrateSessionFromSnapshot).getD SessionLedger.new)

/-- `append_locked`, with the event it returns. -/
def appendLocked (preloadSnapshot : Option (DiskSessionSnapshot Body)) (input : AppendInput Body)
    (L : Ledger Body) : LedgeredUiProtocolEvent Body × Ledger Body :=
  let session := appendBase preloadSnapshot L
  (input.ledgered stream (saturatingAddU64 session.nextSeq 1), appendTo cfg stream session input L)

/-! ## First use of a recovered session -/

/-- What the first use of a recovered session meets: whether its first snapshot file gets written,
and the terminal events that the sweep of orphaned rows appends. -/
structure Touch (Body : Type) where
  bootstrapWritten : Bool
  swept : List (AppendInput Body)

def failSessionRecovery (unrecoverable : ℕ) (L : Ledger Body) : LedgerError × Ledger Body :=
  let detail := toString unrecoverable ++ " unrecoverable ledger record(s) in retained history"
  let entry : SessionIndexEntry := L.index.getD ⟨false, none⟩
  (.recoverSession detail, { L with index := some { entry with failed := some detail } })

/-- Whether `read_session_snapshot` gives a snapshot. -/
def hasUsableSnapshot (dir : Option (SessionDir Body)) : Bool :=
  dir.any fun dir =>
    match readSessionSnapshot dir with
    | .ok (some _) => true
    | .ok none => false
    | .error _ => false

variable (touch : Touch Body)

/-- The ring is hydrated from what was read, and the first snapshot file written. -/
def loadSession (snapshot : DiskSessionSnapshot Body) (L : Ledger Body) : Ledger Body :=
  let session := hydrateSessionFromSnapshot snapshot
  let bootstrap :=
    0 < cfg.snapshotEveryEvents && !hasUsableSnapshot L.dir && touch.bootstrapWritten
  { L with
    session := some session
    dir := if bootstrap then L.dir.map (writeSessionSnapshot session) else L.dir }

variable (L : Ledger Body)

/-- An append of `reconcile_orphaned_rows`, which finds the session in memory. -/
def sweepStep (input : AppendInput Body) : Ledger Body :=
  (appendLocked cfg stream none input L).2

/-- The end of `ensure_session_loaded`: the sweep runs once in a process. -/
def finishLoad (entry : SessionIndexEntry) (snapshot : DiskSessionSnapshot Body) (L : Ledger Body) :
    Ledger Body :=
  let loaded := loadSession cfg touch snapshot L
  let swept :=
    if entry.reconciled then loaded else runSteps (sweepStep cfg stream) loaded touch.swept
  { swept with index := some { entry with reconciled := true } }

/-- Whether the session is in memory now. A session that the index does not
list is left to the caller. -/
def ensureSessionLoaded : Except LedgerError Bool × Ledger Body :=
  match L.session, L.index with
  | some _, _ => (.ok true, L)
  | none, none => (.ok false, L)
  | none, some entry =>
    match entry.failed with
    | some reason => (.error (.recoverSession reason), L)
    | none =>
      match readSessionDiskSnapshot cfg stream none false L.dir with
      | none => (.ok false, L)
      | some snapshot =>
        if 0 < snapshot.unrecoverableRecords then
          let failed := failSessionRecovery snapshot.unrecoverableRecords L
          (.error failed.1, failed.2)
        else if snapshot.retainedEntries.isEmpty && snapshot.headSeq == 0 then (.ok false, L)
        else (.ok true, finishLoad cfg stream touch entry snapshot L)

/-- What an append to a session outside memory starts from. -/
def snapshotIfSessionAbsent :
    Except LedgerError (Option (DiskSessionSnapshot Body)) × Ledger Body :=
  match ensureSessionLoaded cfg stream touch L with
  | (.error error, L) => (.error error, L)
  | (.ok true, L) => (.ok none, L)
  | (.ok false, L) =>
    if L.session.isSome then (.ok none, L)
    else
      match readSessionDiskSnapshot cfg stream none false L.dir with
      | none => (.ok none, L)
      | some snapshot =>
        if 0 < snapshot.unrecoverableRecords then
          let failed := failSessionRecovery snapshot.unrecoverableRecords L
          (.error failed.1, failed.2)
        else (.ok (some snapshot), L)

/-- `append_with_storage_id`. -/
def append (input : AppendInput Body) (L : Ledger Body) :
    Except LedgerError (LedgeredUiProtocolEvent Body) × Ledger Body :=
  match snapshotIfSessionAbsent cfg stream touch L with
  | (.error error, L) => (.error error, L)
  | (.ok preloadSnapshot, L) =>
    let (event, L) := appendLocked cfg stream preloadSnapshot input L
    (.ok event, L)

/-! ## Replay -/

def replayFromEntries (entries : List (LedgerEntry Body)) (afterSeq : ℕ) :
    List (LedgeredUiProtocolEvent Body) :=
  (entries.filter fun e => afterSeq < e.seq).map (·.ledgered stream)

/-- The replay from the ring, when the ring reaches back to the cursor. -/
def replayFromRing (afterSeq : ℕ) (session : SessionLedger Body) :
    Option (List (LedgeredUiProtocolEvent Body) × ℕ) :=
  match session.entries.head? with
  | some oldest =>
    if oldest.seq - 1 ≤ afterSeq ∧ afterSeq ≤ session.nextSeq then
      some (replayFromEntries stream session.entries afterSeq, session.nextSeq)
    else none
  | none => if afterSeq = session.nextSeq then some ([], session.nextSeq) else none

def cursorOutOfRangeError (after : UiCursor) (retainedSeq : ℕ) (oldestRetainedSeq : Option ℕ) :
    RpcError :=
  .cursorOutOfRange after ⟨stream, retainedSeq⟩ (some ⟨retainedSeq, oldestRetainedSeq⟩)

/-- The answer when disk has nothing of the session. -/
def replayNothing (after : UiCursor) :
    Except RpcError (List (LedgeredUiProtocolEvent Body) × ℕ) :=
  if after.seq = 0 then .ok ([], 0) else .error (cursorOutOfRangeError stream after 0 none)

def replayAfterFromDiskWithHead (after : UiCursor) (L : Ledger Body) :
    Except RpcError (List (LedgeredUiProtocolEvent Body) × ℕ) × Ledger Body :=
  match L.session.bind (replayFromRing stream after.seq) with
  | some result => (.ok result, L)
  | none =>
    match readSessionDiskSnapshot cfg stream (some after.seq) false L.dir with
    | none => (replayNothing stream after, L)
    | some snapshot =>
      match L.session.filter fun existing => snapshot.headSeq < existing.nextSeq with
      | some existing =>
        (.error (cursorOutOfRangeError stream after existing.nextSeq
          (existing.entries.head?.map (·.seq))), L)
      | none =>
        match snapshot.oldestSeq with
        | none => (replayNothing stream after, L)
        | some oldestSeq =>
          if snapshot.headSeq < after.seq ∨ after.seq < oldestSeq - 1 then
            (.error (cursorOutOfRangeError stream after snapshot.headSeq (some oldestSeq)), L)
          else
            (.ok (snapshot.replayEntries, snapshot.headSeq),
              { L with session := some (hydrateSessionFromSnapshot snapshot) })

/-- Without a cursor only the head is asked for. -/
def replayAfterWithHead (after : Option UiCursor) (L : Ledger Body) :
    Except RpcError (List (LedgeredUiProtocolEvent Body) × ℕ) × Ledger Body :=
  match ensureSessionLoaded cfg stream touch L with
  | (.error error, L) => (.error (.ledger error), L)
  | (.ok _, L) =>
    match after with
    | none => (.ok ([], (L.session.map (·.nextSeq)).getD 0), L)
    | some after =>
      if after.stream ≠ stream then (.error (.cursorStreamMismatch stream after.stream), L)
      else
        match L.session.bind (replayFromRing stream after.seq) with
        | some result => (.ok result, L)
        | none => replayAfterFromDiskWithHead cfg stream after L

/-! ## Hydration -/

/-- Whether `snapshot_with_cursor` reads disk: the ring does not reach back to the cursor, or there
is no ring. -/
def ringMisses (afterSeq : ℕ) (session : Option (SessionLedger Body)) : Bool :=
  match session with
  | none => true
  | some session =>
    match session.entries.head? with
    | some oldest => afterSeq < oldest.seq - 1
    | none => afterSeq ≠ session.nextSeq

/-- What was read from disk replaces the ring unless the ring is ahead of it. -/
def hydrateRing (snapshot : DiskSessionSnapshot Body) (L : Ledger Body) : Ledger Body :=
  let session := L.session.getD SessionLedger.new
  { L with
    session := some <| if session.nextSeq ≤ snapshot.headSeq then
      hydrateSessionFromSnapshot snapshot else session }

/-- The ring `snapshot_with_cursor` answers from. -/
def hydrateForSnapshot (afterSeq : ℕ) (L : Ledger Body) : Ledger Body :=
  if ringMisses afterSeq L.session then
    (readSessionDiskSnapshot cfg stream (some afterSeq) true L.dir).elim L (hydrateRing · L)
  else L

/-- The range check of `snapshot_with_cursor`: cursor 0 asks for all that is retained. -/
def snapshotOutOfRange (afterSeq : ℕ) (session : SessionLedger Body) : Bool :=
  match session.entries.head? with
  | some oldest => (afterSeq ≠ 0 ∧ afterSeq < oldest.seq - 1) ∨ session.nextSeq < afterSeq
  | none => afterSeq ≠ session.nextSeq ∧ afterSeq ≠ 0

/-- The answer of `snapshot_with_cursor` from the ring. -/
def answerSnapshot (after : UiCursor) (eventFilter : UiProtocolLedgerEvent Body → Bool)
    (session : Option (SessionLedger Body)) :
    Except RpcError (List (LedgeredUiProtocolEvent Body) × UiCursor) :=
  match session with
  | none => .ok ([], ⟨stream, 0⟩)
  | some session =>
    if snapshotOutOfRange after.seq session then
      .error (.cursorOutOfRange after ⟨stream, session.nextSeq⟩ none)
    else
      .ok ((session.entries.filter fun e => after.seq < e.seq && eventFilter e.event).map
        (·.ledgered stream), ⟨stream, session.nextSeq⟩)

def snapshotWithCursor (after : Option UiCursor) (eventFilter : UiProtocolLedgerEvent Body → Bool)
    (L : Ledger Body) :
    Except RpcError (List (LedgeredUiProtocolEvent Body) × UiCursor) × Ledger Body :=
  let after := after.getD ⟨stream, 0⟩
  if after.stream ≠ stream then (.error (.cursorStreamMismatch stream after.stream), L)
  else
    match ensureSessionLoaded cfg stream touch L with
    | (.error error, L) => (.error (.ledger error), L)
    | (.ok _, L) =>
      let L := hydrateForSnapshot cfg stream after.seq L
      (answerSnapshot stream after eventFilter L.session, L)

/-- The operations on a session. `evict` stands for `evict_lru_locked` and `sweep_idle` choosing the
session, `restart` for a new process with `recover`. -/
inductive Op (Body : Type)
  | append (touch : Touch Body) (input : AppendInput Body)
  | replayAfterWithHead (touch : Touch Body) (after : Option UiCursor)
  | snapshotWithCursor (touch : Touch Body) (after : Option UiCursor)
      (eventFilter : UiProtocolLedgerEvent Body → Bool)
  | evict
  | restart

/-- Memory is gone, and the index lists the session when it has a directory. -/
def recover : Ledger Body :=
  { L with session := none, index := L.dir.map fun _ => ⟨false, none⟩ }

def step : Op Body → Ledger Body
  | .append touch input => (append cfg stream touch input L).2
  | .replayAfterWithHead touch after => (replayAfterWithHead cfg stream touch after L).2
  | .snapshotWithCursor touch after eventFilter =>
    (snapshotWithCursor cfg stream touch after eventFilter L).2
  | .evict => { L with session := none }
  | .restart => recover L

end

end Octos.UiLedger
