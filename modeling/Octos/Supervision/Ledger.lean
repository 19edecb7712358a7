import Octos.Supervision.State
import Octos.Base.Replay
import Octos.Base.Threads

/-!
# The files of the supervisor store

`octos-cli/src/autonomy/supervisor_store.rs`: writers append rows to a ledger under a lock file, and
from time to time replace the snapshot and rotate the ledger away. Readers take no lock: they read
the ledger, then the snapshot. Any number of stores write and read at the same time, each step below
is one file operation, and a call can end after any of them, with its lock file left behind
(`Fault.crash`) or removed (`Fault.error`); an append that ends so has written any number of its
bytes. What the holder of the lock only reads is one step with what it does next: nobody else
changes the ledger or the snapshot meanwhile.

The text of a row is a parameter: of it matter the number of bytes and where its characters begin.
-/

namespace Octos.Supervision

/-! ## Ledger files -/

/-- A line of a ledger: a row, or what is left of a row that was cut. Such a rest is no JSON object;
it is valid where it ends between two characters. -/
inductive Line
  | row (r : LedgerRow)
  | torn (bytes : ℕ) (valid : Bool)

def Line.row? : Line → Option LedgerRow
  | row r => some r
  | torn _ _ => none

def Line.isText : Line → Bool
  | row _ => true
  | torn _ valid => valid

/-- A ledger file: its lines, and whether the last one ends with a line break. -/
structure LedgerFile where
  /-- The number of rows that were committed before the file. -/
  start : ℕ
  lines : List Line
  terminated : Bool

/-- The byte of a text at which a cut falls between two characters. -/
def isCharBoundary : List Char → ℕ → Bool
  | _, 0 => true
  | [], _ + 1 => false
  | c :: cs, n + 1 => decide (c.utf8Size ≤ n + 1) && isCharBoundary cs (n + 1 - c.utf8Size)

namespace LedgerFile

variable (file : LedgerFile)

def rows : List LedgerRow := file.lines.filterMap Line.row?

/-- `read_ledger_rows` fails on a line that is no text. -/
def isText : Bool := file.lines.all Line.isText

def lastRowSequence : Option ℕ :=
  (file.lines.getLast?.bind Line.row?).map LedgerRow.sequence

section

variable (text : LedgerRow → List Char)

def rowSize (r : LedgerRow) : ℕ := ((text r).map Char.utf8Size).sum

def lineSize : Line → ℕ
  | .row r => rowSize text r
  | .torn bytes _ => bytes

def len (file : LedgerFile) : ℕ :=
  (file.lines.map fun line => lineSize text line + 1).sum - (if file.terminated then 0 else 1)

def push (file : LedgerFile) (line : Line) (terminated : Bool) : LedgerFile :=
  { file with lines := file.lines ++ [line], terminated := terminated }

/-- The first `bytes` bytes of the rows, each with its line break. -/
def writeRows (file : LedgerFile) : List LedgerRow → ℕ → LedgerFile
  | [], _ => file
  | r :: rs, bytes =>
    if bytes = 0 then file
    else if bytes < rowSize text r then
      file.push (.torn bytes (isCharBoundary (text r) bytes)) false
    else if bytes = rowSize text r then file.push (.row r) false
    else writeRows (file.push (.row r) true) rs (bytes - rowSize text r - 1)

/-- `write_rows_sealed_locked`, cut after `bytes` bytes: a torn tail is closed first. -/
def writeRowsSealed (file : LedgerFile) (rs : List LedgerRow) (bytes : ℕ) : LedgerFile :=
  if file.terminated then file.writeRows text rs bytes
  else if bytes = 0 then file
  else { file with terminated := true }.writeRows text rs (bytes - 1)

end

/-- `write_rows_sealed_locked`, to its end. -/
def writeAllRows (rs : List LedgerRow) : LedgerFile :=
  { file with lines := file.lines ++ rs.map .row, terminated := true }

end LedgerFile

/-! ## Snapshots -/

/-- `SupervisorSnapshot`. -/
structure Snapshot where
  lastSequence : ℕ
  state : SupervisorState

def foldRows (rows : List LedgerRow) : SupervisorState :=
  runSteps SupervisorState.applyLedgerRow {} rows

/-- `load_state_with_cutoff`, on what it has read. -/
def loadState (rows : List LedgerRow) (snapshot : Option Snapshot) : SupervisorState :=
  let cutoff := snapshot.elim 0 Snapshot.lastSequence
  let state := snapshot.elim {} Snapshot.state
  let state := { state with lastSequence := max state.lastSequence cutoff }
  runSteps SupervisorState.applyLedgerRow state
    (rows.filter fun row => decide (cutoff < row.sequence))

inductive LoadError
  | invalidUtf8

/-! ## The store -/

/-- The cursor of a store over the ledger. -/
structure SeqCache where
  seeded : Bool := false
  lastSequence : ℕ := 0
  eventsLen : ℕ := 0
  ledgerRows : ℕ := 0

/-- A call of `load_state` that has returned: how many rows were committed when it opened the
ledger, and what it returned. -/
structure Load where
  since : ℕ
  result : Except LoadError SupervisorState

/-- The files that the stores share, the cursor of each store, and a history of what was committed
and loaded. A row is committed once its text is in the ledger, with or without its line break. -/
structure Store where
  /-- Every ledger file there was; the ledger is the last one, if there is one now. -/
  files : List LedgerFile := []
  live : Bool := false
  snapshot : Option Snapshot := none
  snapshotTmp : Option Snapshot := none
  locked : Bool := false
  caches : ℕ → SeqCache := fun _ => {}
  committed : List LedgerRow := []
  loads : List Load := []

namespace Store

variable (s : Store)

def ledger : Option LedgerFile := if s.live then s.files.getLast? else none

/-- The number of committed rows that are no longer in the ledger. -/
def compacted : ℕ := s.ledger.elim s.committed.length LedgerFile.start

def readLedgerRows : Except LoadError (List LedgerRow) :=
  match s.ledger with
  | none => .ok []
  | some file => if file.isText then .ok file.rows else .error .invalidUtf8

/-- The ledger, or the file that an append creates. -/
def openLedger : LedgerFile := s.ledger.getD ⟨s.committed.length, [], true⟩

/-- The ledger is `file` now; the rows that are new in it are committed. -/
def setLedger (file : LedgerFile) : Store :=
  { s with
    files := (if s.live then s.files.dropLast else s.files) ++ [file]
    live := true
    committed := s.committed ++ file.rows.drop s.openLedger.rows.length }

def setCache (store : ℕ) (cache : SeqCache) : Store :=
  { s with caches := Function.update s.caches store cache }

/-! ## Sequences -/

def reseedCache (diskLen : ℕ) : Except LoadError SeqCache := do
  let snapshotLast := s.snapshot.elim 0 Snapshot.lastSequence
  let rows ← s.readLedgerRows
  return ⟨true, max snapshotLast (highest LedgerRow.sequence rows), diskLen, rows.length⟩

/-- `refresh_seq_cache_locked`: the cursor stands where the ledger has its length and ends in its
row. -/
def refreshSeqCache (text : LedgerRow → List Char) (s : Store) (cache : SeqCache) :
    Except LoadError SeqCache :=
  let diskLen := s.ledger.elim 0 (LedgerFile.len text)
  if cache.seeded && decide (0 < diskLen) && decide (diskLen = cache.eventsLen) &&
      s.ledger.bind LedgerFile.lastRowSequence == some cache.lastSequence then .ok cache
  else s.reseedCache diskLen

/-- The rows of a batch, with consecutive sequences; a row without an event id is named by its
sequence. -/
def numberRows (recordedAtMs : ℕ) : ℕ → List (String × Event) → List LedgerRow
  | _, [] => []
  | last, (eventId, event) :: events =>
    ⟨if eventId.isEmpty then "event:" ++ toString (last + 1) else eventId, last + 1,
      recordedAtMs, event⟩ ::
      numberRows recordedAtMs (last + 1) events

end Store

/-! ## Calls -/

/-- The calls that append: `append_event` and the `record_*` calls over it,
`record_continuation_queued_if_not_completed`, and `record_continuations_coalesced`. -/
inductive AppendKind
  | single
  | conditional
  | batch
  deriving DecidableEq

/-- A call that appends events: the store, its cadence of compactions, and the events with their
ids. -/
structure Append where
  kind : AppendKind
  store : ℕ
  snapshotEvery : ℕ
  events : List (String × Event)

inductive Call
  | append (call : Append)
  | loadState

/-- The steps of the calls. From `refresh` to `release` a call holds the lock. -/
inductive Action
  | acquire (call : Append)
  | refresh (call : Append)
  | write (call : Append)
  | writeSnapshotTmp (store : ℕ)
  | removeSnapshot (store : ℕ)
  | renameSnapshot (store : ℕ)
  | removeRotated (store lastSequence : ℕ)
  | rotate (store lastSequence : ℕ)
  | release
  | openLedger
  | readRows (file : Option ℕ) (since : ℕ)
  | readSnapshot (rows : List LedgerRow) (since : ℕ)

/-- A call starts with the lock, or with opening the ledger. A batch without entries does
nothing. -/
def Call.start : Call → List Action
  | append call => if call.events.isEmpty then [] else [.acquire call]
  | loadState => [.openLedger]

/-- The step is one under the lock. -/
def Action.holdsLock : Action → Bool
  | acquire _ | openLedger | readRows _ _ | readSnapshot _ _ => false
  | _ => true

/-- What can end a call early. -/
inductive Fault
  | error
  | crash

/-- What a step meets: the clock, whether the continuation of a conditional call is completed, and a
fault together with the bytes of an append that come before it. -/
structure Input where
  recordedAtMs : ℕ := 0
  alreadyCompleted : Bool := false
  fault : Option Fault := none
  bytes : ℕ := 0

namespace Store

section

variable (text : LedgerRow → List Char)

def pendingRows (s : Store) (call : Append) (input : Input) : List LedgerRow :=
  numberRows input.recordedAtMs (s.caches call.store).lastSequence call.events

/-- The cursor after an append to its end. -/
def advancedCache (s : Store) (call : Append) (rows : List LedgerRow) : SeqCache :=
  let cache := s.caches call.store
  ⟨true, rows.getLast?.elim cache.lastSequence fun last => max cache.lastSequence last.sequence,
    (s.openLedger.writeAllRows rows).len text, cache.ledgerRows + rows.length⟩

/-- After an append the ledger is compacted, if it has enough rows. -/
def compactOrRelease (call : Append) (cache : SeqCache) : List Action :=
  if 0 < call.snapshotEvery ∧ call.snapshotEvery ≤ cache.ledgerRows then
    [.writeSnapshotTmp call.store]
  else [.release]

/-- A step, and the steps that follow. -/
def perform (input : Input) (s : Store) : Action → Store × List Action
  | .acquire call =>
    -- `create_new` fails while the lock file exists, and is tried again.
    if s.locked then (s, [.acquire call]) else ({ s with locked := true }, [.refresh call])
  | .refresh call =>
    if call.kind = .conditional ∧ input.alreadyCompleted then (s, [.release])
    else match s.refreshSeqCache text (s.caches call.store) with
      | .error _ => (s, [.release])
      | .ok cache => (s.setCache call.store cache, [.write call])
  | .write call =>
    let rows := s.pendingRows call input
    let cache := s.advancedCache text call rows
    ((s.setLedger (s.openLedger.writeAllRows rows)).setCache call.store cache,
      compactOrRelease call cache)
  | .writeSnapshotTmp store =>
    match s.readLedgerRows with
    | .error _ => (s, [.release])
    | .ok rows =>
      let state := loadState rows s.snapshot
      ({ s with snapshotTmp := some ⟨state.lastSequence, state⟩ }, [.removeSnapshot store])
  -- `rename_replace`: the file is removed, then the other one takes its name.
  | .removeSnapshot store => ({ s with snapshot := none }, [.renameSnapshot store])
  | .renameSnapshot store =>
    match s.snapshotTmp with
    | none => (s, [.release])
    | some snapshot =>
      ({ s with snapshot := some snapshot, snapshotTmp := none },
        [.removeRotated store snapshot.lastSequence])
  -- The rotated ledger is read by nobody.
  | .removeRotated store lastSequence => (s, [.rotate store lastSequence])
  | .rotate store lastSequence =>
    ({ s with live := false }.setCache store
      ⟨true, max (s.caches store).lastSequence lastSequence, 0, 0⟩, [.release])
  | .release => ({ s with locked := false }, [])
  | .openLedger =>
    (s, [.readRows (if s.live then some (s.files.length - 1) else none) s.committed.length])
  | .readRows file since =>
    match file.bind fun i => s.files[i]? with
    | none => (s, [.readSnapshot [] since])
    | some file =>
      if file.isText then (s, [.readSnapshot file.rows since])
      else ({ s with loads := s.loads ++ [⟨since, .error .invalidUtf8⟩] }, [])
  | .readSnapshot rows since =>
    ({ s with loads := s.loads ++ [⟨since, .ok (loadState rows s.snapshot)⟩] }, [])

/-- What is left of a step that ends early: of an append its first bytes, and a cursor to be seeded
again; of the others nothing. -/
def interrupted (input : Input) (s : Store) : Action → Store
  | .write call =>
    (s.setLedger
      (s.openLedger.writeRowsSealed text (s.pendingRows call input) input.bytes)).setCache
      call.store { s.caches call.store with seeded := false }
  | _ => s

/-- After an error the lock is released, if the call holds it and can. A batch looks at the number
of rows before it reports its error. -/
def afterError (s : Store) : Action → List Action
  | .write call =>
    if call.kind = .batch then compactOrRelease call (s.caches call.store) else [.release]
  | .release => []
  | a => if a.holdsLock then [.release] else []

/-- A step of a call: it is done, it ends in an error, or the call is gone. -/
def exec (input : Input) (s : Store) (a : Action) : Store × Option (List Action) :=
  match input.fault with
  | none => ((s.perform text input a).1, some (s.perform text input a).2)
  | some .error => (s.interrupted text input a, some (s.afterError a))
  | some .crash => (s.interrupted text input a, none)

end

end Store

end Octos.Supervision
