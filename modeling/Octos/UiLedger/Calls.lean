import Octos.Base.Threads
import Octos.UiLedger.Ledger

/-!
# Calls as critical sections

No call holds the lock of the ledger from beginning to end. It looks at the session, reads the
directory without the lock, and locks again to hydrate, append or answer, so that evictions and
other calls may come in between. Here a run interleaves the sections of any number of calls; a read
of the directory is one section.
-/

namespace Octos.UiLedger

variable {Body : Type}

inductive Call (Body : Type)
  | append (input : AppendInput Body)
  | replayAfterWithHead (after : Option UiCursor)
  | snapshotWithCursor (after : Option UiCursor) (eventFilter : UiProtocolLedgerEvent Body → Bool)

/-- The sections of `ensure_session_loaded`, up to `mark`, and those of the call itself. -/
inductive Stage (Body : Type)
  | look
  | lookUp
  | read (reconciled : Bool)
  | load (reconciled usable : Bool) (snapshot : DiskSessionSnapshot Body)
  | bootstrap
  | sweep
  | mark
  | check
  | preload
  | finish (preload : Option (DiskSessionSnapshot Body))

/-- What a thread has still to do. -/
inductive Act (Body : Type)
  | evict
  | on (call : Call Body) (stage : Stage Body)

/-- What a section does: the ledger after it, the sections that follow unless it fails, and the
numbers of the events and the head that it replies. -/
structure Outcome (Body : Type) where
  ledger : Ledger Body
  next : Option (List (Act Body))
  reply : Option (List ℕ × ℕ)

/-- `ensure_session_loaded` returns. An append to a session that is in memory goes on to
`append_locked`. -/
def Call.loaded : Call Body → Bool → Act Body
  | .append input, true => .on (.append input) (.finish none)
  | call, _ => .on call .check

def numbers (events : List (LedgeredUiProtocolEvent Body)) : List ℕ := events.map (·.cursor.seq)

section

variable (cfg : LedgerConfig) (stream : String) (touch : Touch Body) (L : Ledger Body)

/-- Go on with these sections. -/
def proceed (next : List (Act Body)) : Outcome Body := ⟨L, some next, none⟩

/-- `fail_session_recovery`, or go on. -/
def readable (snapshot : DiskSessionSnapshot Body) (next : List (Act Body)) : Outcome Body :=
  if 0 < snapshot.unrecoverableRecords then
    ⟨(failSessionRecovery snapshot.unrecoverableRecords L).2, none, none⟩
  else proceed L next

/-- The cursor of `snapshot_with_cursor`. -/
def snapshotCursor (after : Option UiCursor) : UiCursor := after.getD ⟨stream, 0⟩

/-- `snapshot_with_cursor` checks its cursor first, a replay later. -/
def Call.misaddressed : Call Body → Bool
  | .snapshotWithCursor after _ => (snapshotCursor stream after).stream ≠ stream
  | _ => false

/-- Before the last section: where the session is not in memory, or does not reach back, disk is
read. A replay is answered from the ring if it can be. -/
def check : Call Body → Outcome Body
  | .append input =>
    proceed L [.on (.append input) (if L.session.isSome then .finish none else .preload)]
  | .replayAfterWithHead none => ⟨L, some [], some ([], (L.session.map (·.nextSeq)).getD 0)⟩
  | .replayAfterWithHead (some after) =>
    if after.stream ≠ stream then ⟨L, none, none⟩
    else
      match L.session.bind (replayFromRing stream after.seq) with
      | some result => ⟨L, some [], some (numbers result.1, result.2)⟩
      | none => proceed L [.on (.replayAfterWithHead (some after)) (.finish none)]
  | .snapshotWithCursor after eventFilter =>
    proceed L [.on (.snapshotWithCursor after eventFilter)
      (if ringMisses (snapshotCursor stream after).seq L.session then .preload else .finish none)]

/-- The read of the directory before the last section. -/
def preload : Call Body → Outcome Body
  | .append input =>
    match readSessionDiskSnapshot cfg stream none false L.dir with
    | none => proceed L [.on (.append input) (.finish none)]
    | some snapshot => readable L snapshot [.on (.append input) (.finish (some snapshot))]
  | .snapshotWithCursor after eventFilter =>
    proceed L [.on (.snapshotWithCursor after eventFilter) (.finish
      (readSessionDiskSnapshot cfg stream (some (snapshotCursor stream after).seq) true L.dir))]
  -- A replay reads disk under the lock.
  | .replayAfterWithHead _ => proceed L []

/-- The last section. -/
def finish (preload : Option (DiskSessionSnapshot Body)) : Call Body → Outcome Body
  | .append input => proceed (appendLocked cfg stream preload input L).2 []
  | .replayAfterWithHead after =>
    let result := replayAfterFromDiskWithHead cfg stream (after.getD ⟨stream, 0⟩) L
    ⟨result.2, some [], result.1.toOption.map fun r => (numbers r.1, r.2)⟩
  | .snapshotWithCursor after eventFilter =>
    let L := preload.elim L (hydrateRing · L)
    ⟨L, some [], (answerSnapshot stream (snapshotCursor stream after) eventFilter
      L.session).toOption.map fun r => (numbers r.1, r.2.seq)⟩

/-- The next section of a call. -/
def perform (call : Call Body) : Stage Body → Outcome Body
  | .look =>
    if call.misaddressed stream then ⟨L, none, none⟩
    else proceed L [if L.session.isSome then call.loaded true else .on call .lookUp]
  | .lookUp =>
    match L.index with
    | none => proceed L [call.loaded false]
    | some entry =>
      if entry.failed.isSome then ⟨L, none, none⟩
      else proceed L [.on call (.read entry.reconciled)]
  | .read reconciled =>
    match readSessionDiskSnapshot cfg stream none false L.dir with
    | none => proceed L [call.loaded false]
    | some snapshot =>
      readable L snapshot
        [if snapshot.retainedEntries.isEmpty && snapshot.headSeq == 0 then call.loaded false
          else .on call (.load reconciled (hasUsableSnapshot L.dir) snapshot)]
  | .load reconciled usable snapshot =>
    let session := L.session.getD SessionLedger.new
    let hydrated := session.nextSeq == 0 && session.entries.isEmpty
    let bootstrap := hydrated && 0 < cfg.snapshotEveryEvents && !usable
    proceed (hydrateRing snapshot L)
      ((if bootstrap then [.on call .bootstrap] else []) ++
        (if hydrated && !reconciled then [.on call .sweep] else []) ++
        (if hydrated || !reconciled then [.on call .mark] else []) ++ [call.loaded true])
  | .bootstrap =>
    match L.session with
    | some session =>
      if touch.bootstrapWritten then
        proceed { L with dir := L.dir.map (writeSessionSnapshot session) } []
      else proceed L []
    | none => proceed L []
  | .sweep =>
    -- The terminal events are appended one by one, each by a call of its own.
    proceed L (if L.session.isSome then touch.swept.map fun input => .on (.append input) .look
      else [])
  | .mark =>
    proceed { L with index := L.index.map fun entry => { entry with reconciled := true } } []
  | .check => check stream L call
  | .preload => preload cfg stream L call
  | .finish preload => finish cfg stream L preload call

end

/-- A reply, with the number of events that had been appended when it was made. -/
structure Reply where
  numbers : List ℕ
  head : ℕ
  issued : ℕ

/-- The ledger, and the replies so far. -/
structure Service (Body : Type) where
  ledger : Ledger Body
  replies : List Reply

def Service.start : Service Body := ⟨.start, []⟩

/-- A thread makes one call, or evicts the session. -/
def startCall : Option (Call Body) → List (Act Body)
  | none => [.evict]
  | some call => [.on call .look]

section

variable (cfg : LedgerConfig) (stream : String)

def execute (touch : Touch Body) (s : Service Body) :
    Act Body → Service Body × Option (List (Act Body))
  | .evict => (⟨{ s.ledger with session := none }, s.replies⟩, some [])
  | .on call stage =>
    let out := perform cfg stream touch s.ledger call stage
    (⟨out.ledger, s.replies ++
      (out.reply.map fun r => ⟨r.1, r.2, out.ledger.published.length⟩).toList⟩, out.next)

/-- A move of the scheduler, or a new process in the place of the old one. -/
inductive Turn (Body : Type)
  | move (move : Move (Option (Call Body)) (Touch Body))
  | restart

abbrev Threads (Body : Type) := Pool (Service Body) (Act Body)

def turn (p : Threads Body) : Turn Body → Threads Body
  | .move move => p.step startCall (execute cfg stream) move
  | .restart => ⟨⟨recover p.shared.ledger, p.shared.replies⟩, []⟩

end

end Octos.UiLedger
