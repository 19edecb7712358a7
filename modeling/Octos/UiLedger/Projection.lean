import Octos.UiLedger.Contents
import Octos.Base.Keys

/-!
# The projection of one thread

`ui_protocol_ledger.rs`, `emit_envelope_v2_inner` and the allocator behind it: the envelopes of one
thread of a session are numbered 1, 2, 3, … and end with a terminal one. The allocator's state lives
in memory, is dropped with the session, and is rebuilt from a watermark file that is written ahead
of each envelope, merged with what the logs still hold.

Writes of the watermark may fail, and the process may stop between the watermark and the log. The
other operations on the session, those for other threads included, are those of `UiLedger.step`.
-/

namespace Octos.UiLedger

variable {α : Type}

/-! ## Envelopes -/

/-- `PayloadV2`: the variants the ledger tells apart, and the others. -/
inductive PayloadV2 (α : Type)
  | assistantDelta (assistantSegmentId : String) (body : α)
  | assistantPersisted (assistantSegmentId : String) (body : α)
  | turnTerminal (body : α)
  | backgroundChildCompleted (body : α)
  | other (body : α)

def PayloadV2.isTerminal : PayloadV2 α → Bool
  | .turnTerminal _ => true
  | .backgroundChildCompleted _ => true
  | .assistantDelta _ _ => false
  | .assistantPersisted _ _ => false
  | .other _ => false

/-- The assistant segment a payload belongs to. -/
def PayloadV2.assistantIdentity : PayloadV2 α → Option String
  | .assistantDelta id _ => some id
  | .assistantPersisted id _ => some id
  | .turnTerminal _ => none
  | .backgroundChildCompleted _ => none
  | .other _ => none

/-- `EnvelopeV2`; its cursor is the one of the notification around it. -/
structure EnvelopeV2 (α : Type) where
  threadId : String
  seq : ℕ
  turnId : String
  clientMessageId : Option String
  payload : PayloadV2 α

/-- What the events of the session carry. -/
inductive EventBody (α : Type)
  | envelope (envelope : EnvelopeV2 α)
  | plain (body : α)

def envelopeIn : UiProtocolLedgerEvent (EventBody α) → Option (EnvelopeV2 α)
  | .notification (.envelopeV2 _ (.envelope e)) => some e
  | .notification _ => none
  | .progress _ => none

variable (thread : String)

def threadEnvelope (event : UiProtocolLedgerEvent (EventBody α)) : Option (EnvelopeV2 α) :=
  (envelopeIn event).filter (·.threadId == thread)

/-! ## The allocator's state -/

structure ThreadSeqState where
  nextSeq : ℕ
  completed : Bool
  assistantSegmentId : Option String
  assistantOwnerSeq : Option ℕ
deriving DecidableEq

def ThreadSeqState.default : ThreadSeqState := ⟨0, false, none, none⟩

/-- `str::strip_suffix(..).unwrap_or(..)`, with whether the suffix was there. -/
def splitFinal (value : String) : String × Bool :=
  let suffix := ":final".toList
  if suffix <:+ value.toList then
    (String.ofList (value.toList.take (value.toList.length - suffix.length)), true)
  else (value, false)

/-- The iteration in a native segment's name, and whether it is final. -/
def nativeAssistantOrder (thread identity : String) : Option (ℕ × Bool) := do
  let value ← stripPrefix (thread ++ ":assistant:iteration:") identity
  let iteration ← parseU64 (splitFinal value).1
  -- `parse::<u32>`
  if iteration.toNat < UInt32.size then return (iteration.toNat, (splitFinal value).2) else none

/-- The order of `(u32, bool)`. -/
def orderLt (a b : ℕ × Bool) : Bool := a.1 < b.1 || (a.1 == b.1 && !a.2 && b.2)

/-- The state with the new owner, unless it stays with the old. -/
def updateNativeAssistantOwner (state : ThreadSeqState) (identity : String) :
    Option ThreadSeqState :=
  if state.assistantSegmentId = some identity then none
  else
    let older := (nativeAssistantOrder thread identity).any fun incoming =>
      (state.assistantSegmentId.bind (nativeAssistantOrder thread)).any (orderLt incoming)
    if older then none else some { state with assistantSegmentId := some identity }

/-- The number and the completion of a state, merged with an envelope found on disk. -/
def ThreadSeqState.merge (state : ThreadSeqState) (e : EnvelopeV2 α) : ThreadSeqState :=
  { state with
    nextSeq := max state.nextSeq (saturatingAddU64 e.seq 1)
    completed := state.completed || e.payload.isTerminal }

/-- The owner of a state, moved to a source found on disk that is newer than the acknowledged
one. -/
def reconcileSource (anchor : Option ℕ) (baseline : Option String) (state : ThreadSeqState)
    (source : ℕ × String) : ThreadSeqState :=
  let provablyNewer :=
    (baseline.bind (nativeAssistantOrder thread)).any fun before =>
      (nativeAssistantOrder thread source.2).any (orderLt before)
  if anchor.elim (baseline.isNone || provablyNewer) (· < source.1) then
    match updateNativeAssistantOwner thread state source.2 with
    | none => state
    | some state => { state with assistantOwnerSeq := some source.1 }
  else state

/-- `reconcile_durable_assistant_owner`, on the envelopes of the thread that the read replayed. -/
def reconcileDurableAssistantOwner (found : List (EnvelopeV2 α)) (state : ThreadSeqState) :
    ThreadSeqState :=
  let state := found.foldl ThreadSeqState.merge state
  let sources := found.filterMap fun e => e.payload.assistantIdentity.map (e.seq, ·)
  let anchor := state.assistantOwnerSeq.or
    (state.assistantSegmentId.bind fun id => (sources.find? (·.2 == id)).map (·.1))
  sources.foldl (reconcileSource thread anchor state.assistantSegmentId) state

/-! ## State -/

/-- A session with one thread's projection: the allocator's state in memory, the watermark file, and
the latch a failed write of the watermark leaves. -/
structure Projection (α : Type) where
  ledger : Ledger (EventBody α)
  threadSeq : Option ThreadSeqState
  watermark : Option ThreadSeqState
  failedProjection : Option String

def Projection.start : Projection α := ⟨Ledger.start, none, none, none⟩

/-- The envelopes of the thread that reached the log, in order. -/
def loggedEnvelopes (L : Ledger (EventBody α)) : List (EnvelopeV2 α) :=
  L.published.filterMap fun e => threadEnvelope thread e.event

/-- What becomes of the write of the watermark ahead of the log. A failing one may have created the
session's directory. -/
inductive WatermarkWrite
  | written
  | failed (dirCreated : Bool) (reason : String)

/-- What an emit is given: payload and message id; and what the world decides of its append and of
its watermark writes. -/
structure EmitInput (α : Type) where
  payload : PayloadV2 α
  clientMessageId : Option String
  recordedAt : ℕ
  externalPrompt : Bool
  lineBytes : ℕ
  snapshotWritten : Bool
  watermark : WatermarkWrite
  ownerPersisted : Bool

inductive EmitError
  | ledger (error : LedgerError)
  | persistThreadWatermark (reason : String)

inductive ProjectionSeqAllocationError
  | postCompletion (kind : String)
  | unavailable (error : EmitError)

/-- Make sure of the session's directory. -/
def Ledger.ensureDirectory (L : Ledger (EventBody α)) : Ledger (EventBody α) :=
  { L with dir := some L.directory }

/-! ## Emitting -/

section

variable (cfg : LedgerConfig) (stream thread : String) (P : Projection α)

def recoverThreadSeqState : ThreadSeqState :=
  let state := P.watermark.getD ThreadSeqState.default
  match readSessionDiskSnapshot cfg stream (some 0) false P.ledger.dir with
  | none => state
  | some snapshot =>
    reconcileDurableAssistantOwner thread
      (snapshot.replayEntries.filterMap fun e => threadEnvelope thread e.event) state

def ThreadSeqState.seq (state : ThreadSeqState) : ℕ :=
  if state.nextSeq = 0 then 1 else state.nextSeq

/-- The state after its next number is handed out. -/
def ThreadSeqState.advance (state : ThreadSeqState) (isTerminal : Bool) : ThreadSeqState :=
  { state with
    nextSeq := saturatingAddU64 state.seq 1
    completed := state.completed || isTerminal }

/-- `persist_thread_watermark_locked`, when it succeeds. -/
def Projection.persist (state : ThreadSeqState) : Projection α :=
  { P with ledger := P.ledger.ensureDirectory, watermark := some state }

def allocateProjectionSeq (isTerminal : Bool) (watermark : WatermarkWrite) (P : Projection α) :
    Except ProjectionSeqAllocationError ℕ × Projection α :=
  let state := P.threadSeq.getD (recoverThreadSeqState cfg stream thread P)
  let P := { P with threadSeq := some state }
  match P.failedProjection with
  | some reason => (.error (.unavailable (.persistThreadWatermark reason)), P)
  | none =>
    if state.completed then
      (.error (.postCompletion (if isTerminal then "duplicate_completed" else "post_completion")),
        P)
    else
      let P := { P with threadSeq := some (state.advance isTerminal) }
      match watermark with
      | .failed dirCreated reason =>
        (.error (.unavailable (.persistThreadWatermark reason)),
          { P with
            ledger := if dirCreated then P.ledger.ensureDirectory else P.ledger
            failedProjection := some reason })
      | .written => (.ok state.seq, P.persist (state.advance isTerminal))

def EmitInput.envelope (input : EmitInput α) (seq : ℕ) : EnvelopeV2 α :=
  ⟨thread, seq, thread, input.clientMessageId, input.payload⟩

def EmitInput.append (input : EmitInput α) (seq : ℕ) : AppendInput (EventBody α) where
  event := .notification (.envelopeV2 none (.envelope (input.envelope thread seq)))
  recordedAt := input.recordedAt
  externalPrompt := input.externalPrompt
  fromConnection := none
  lineBytes := input.lineBytes
  snapshotWritten := input.snapshotWritten

/-- The owner of the thread's attachments moves to the segment just logged; the watermark follows
when its write succeeds. -/
def ownSegment (input : EmitInput α) (seq : ℕ) (P : Projection α) : Projection α :=
  match input.payload.assistantIdentity, P.threadSeq with
  | some identity, some state =>
    match updateNativeAssistantOwner thread state identity with
    | none => P
    | some state =>
      let state := { state with assistantOwnerSeq := some seq }
      let P := { P with threadSeq := some state }
      if input.ownerPersisted then P.persist state else P
  | some _, none => P
  | none, _ => P

/-- An emit up to the write of the log: what it appends to and the number of its envelope, or
nothing when the thread has ended. -/
def beginEmit (touch : Touch (EventBody α)) (input : EmitInput α) (P : Projection α) :
    Except EmitError (Option (Option (DiskSessionSnapshot (EventBody α)) × ℕ)) × Projection α :=
  match snapshotIfSessionAbsent cfg stream touch P.ledger with
  | (.error error, L) => (.error (.ledger error), { P with ledger := L })
  | (.ok preloadSnapshot, L) =>
    match allocateProjectionSeq cfg stream thread input.payload.isTerminal input.watermark
        { P with ledger := L } with
    | (.error (.postCompletion _), P) => (.ok none, P)
    | (.error (.unavailable error), P) => (.error error, P)
    | (.ok seq, P) => (.ok (some (preloadSnapshot, seq)), P)

/-- The rest of an emit. -/
def finishEmit (preloadSnapshot : Option (DiskSessionSnapshot (EventBody α))) (seq : ℕ)
    (input : EmitInput α) (P : Projection α) :
    LedgeredUiProtocolEvent (EventBody α) × Projection α :=
  let appended := appendLocked cfg stream preloadSnapshot (input.append thread seq) P.ledger
  (appended.1, ownSegment thread input seq { P with ledger := appended.2 })

def tryEmitEnvelopeV2 (touch : Touch (EventBody α)) (input : EmitInput α) (P : Projection α) :
    Except EmitError (Option (LedgeredUiProtocolEvent (EventBody α))) × Projection α :=
  match beginEmit cfg stream thread touch input P with
  | (.error error, P) => (.error error, P)
  | (.ok none, P) => (.ok none, P)
  | (.ok (some (preloadSnapshot, seq)), P) =>
    let emitted := finishEmit cfg stream thread preloadSnapshot seq input P
    (.ok (some emitted.1), emitted.2)

/-- What happens to the session: an emit for the thread, an emit that the process does not survive
(it stops before the write of the log), or an operation of the ledger. -/
inductive ProjectionOp (α : Type)
  | emit (touch : Touch (EventBody α)) (input : EmitInput α)
  | crashedEmit (touch : Touch (EventBody α)) (input : EmitInput α)
  | ledger (op : Op (EventBody α))

/-- A new process. -/
def Projection.restart : Projection α :=
  { P with ledger := recover P.ledger, threadSeq := none, failedProjection := none }

/-- One operation. Evicting the session drops the allocator's state with it. -/
def Projection.step : ProjectionOp α → Projection α
  | .emit touch input => (tryEmitEnvelopeV2 cfg stream thread touch input P).2
  | .crashedEmit touch input => (beginEmit cfg stream thread touch input P).2.restart
  | .ledger .evict =>
    { P with ledger := UiLedger.step cfg stream P.ledger .evict, threadSeq := none }
  | .ledger .restart => P.restart
  | .ledger op => { P with ledger := UiLedger.step cfg stream P.ledger op }

end

end Octos.UiLedger
