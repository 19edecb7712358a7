import Octos.Base.Json
import Octos.Base.Table
import Mathlib.Data.String.Basic

/-!
# Records of the supervisor store

`octos-cli/src/autonomy/supervisor_store.rs`: what the store keeps about supervised groups of
agents, the children of a group, their artifacts and the continuations queued for them, and the
events that its ledger is made of. Times are milliseconds, counters and hashes naturals; the
metadata of a record is a table of JSON values.
-/

namespace Octos.Supervision

/-! ## Statuses -/

inductive GroupStatus
  | queued
  | running
  | completed
  | failed
  | cancelled
  | paused
  | blocked
  | budgetLimited

inductive ChildStatus
  | starting
  | running
  | completed
  | failed
  | cancelled

inductive TerminalKind
  | completed
  | failed
  | cancelled
  deriving DecidableEq

inductive ContinuationStatus
  | queued
  | started
  | completed
  deriving DecidableEq

def ContinuationStatus.rank : ContinuationStatus → ℕ
  | queued => 0
  | started => 1
  | completed => 2

def childStatusForTerminal : TerminalKind → ChildStatus
  | .completed => .completed
  | .failed => .failed
  | .cancelled => .cancelled

def groupStatusForTerminal : TerminalKind → GroupStatus
  | .completed => .completed
  | .failed => .failed
  | .cancelled => .cancelled

/-! ## Records -/

/-- `SupervisorMetadata`. -/
abbrev Metadata := Table String Json

/-- The entries of `other` over those of `metadata`. -/
def Metadata.extend (metadata other : Metadata) : Metadata :=
  other.entries.foldl (fun m entry => m.insert entry.1 entry.2) metadata

structure TerminalState where
  kind : TerminalKind
  finishedAtMs : ℕ
  exitCode : Option ℤ
  reason : Option String
  message : Option String
  metadata : Metadata

def autoGroupTerminalMessage : String := "all supervised children reached a terminal state"

def shouldReplaceTerminal (existing : Option TerminalState) (next : TerminalState) : Bool :=
  existing.all fun current => decide (current.finishedAtMs ≤ next.finishedAtMs)

/-- The group was closed because all its children are. -/
def isAutoGroupTerminal (terminal : Option TerminalState) : Bool :=
  (terminal.bind TerminalState.message) == some autoGroupTerminalMessage

/-- `SupervisedGroupRecord`. -/
structure GroupRecord where
  groupId : String
  supervisorId : Option String
  parentSessionId : Option String
  parentTurnId : Option String
  objective : Option String
  status : GroupStatus
  childIds : List String
  createdAtMs : ℕ
  updatedAtMs : ℕ
  terminal : Option TerminalState
  metadata : Metadata

def GroupRecord.new (groupId : String) (createdAtMs : ℕ) : GroupRecord :=
  ⟨groupId, none, none, none, none, .running, [], createdAtMs, createdAtMs, none, .empty⟩

structure HeartbeatPing where
  groupId : String
  childId : String
  pingId : Option String
  observedAtMs : ℕ
  state : Option String
  message : Option String
  progressPercent : Option ℕ
  metadata : Metadata

/-- `ChildAgentRecord`. -/
structure ChildRecord where
  groupId : String
  childId : String
  label : Option String
  profileId : Option String
  model : Option String
  task : Option String
  workspacePath : Option String
  status : ChildStatus
  startedAtMs : ℕ
  updatedAtMs : ℕ
  lastHeartbeat : Option HeartbeatPing
  terminal : Option TerminalState
  metadata : Metadata

def ChildRecord.new (groupId childId : String) (startedAtMs : ℕ) : ChildRecord :=
  ⟨groupId, childId, none, none, none, none, none, .running, startedAtMs, startedAtMs, none,
    none, .empty⟩

structure ArtifactRecord where
  groupId : String
  childId : Option String
  artifactId : String
  kind : String
  path : String
  displayName : Option String
  version : ℕ
  updatedAtMs : ℕ
  sha256 : Option String
  bytes : Option ℕ
  metadata : Metadata

/-- `PendingContinuationRecord`; `attempt` is the revision of the queued payload. -/
structure ContinuationRecord where
  groupId : String
  continuationId : String
  childId : Option String
  prompt : Option String
  status : ContinuationStatus
  queuedAtMs : ℕ
  startedAtMs : Option ℕ
  completedAtMs : Option ℕ
  result : Option String
  attempt : ℕ
  metadata : Metadata

/-- The record a lifecycle event finds when no payload was queued before it. -/
def ContinuationRecord.unqueued (groupId continuationId : String) (observedAtMs : ℕ) :
    ContinuationRecord :=
  ⟨groupId, continuationId, none, none, .queued, observedAtMs, none, none, none, 0, .empty⟩

/-! ## Merging continuations -/

def coalescedMetadataKeys : List String :=
  ["coalesced_child_ids", "coalesced_children", "coalesced_count", "coalesced_count_kind",
    "listed_child_count", "omitted_child_count", "coalesced_row_kinds", "omitted_summary_count",
    "coalesce_generation", "coalesced_child_ids_truncated", "coalesced_children_truncated",
    "coalesced_correction_note"]

/-- The canonical scope goes before the path. -/
def continuationWorkspace (record : ContinuationRecord) : Option Json :=
  (record.metadata.get "payload:workspace_scope").or (record.metadata.get "payload:workspace")

/-- The fields of a coalesced report that the next payload does not carry itself. -/
def carryCoalesced (existing next : Metadata) : Metadata :=
  coalescedMetadataKeys.foldl
    (fun metadata key =>
      match existing.get ("payload:" ++ key), metadata.get ("payload:" ++ key) with
      | some value, none => metadata.insert ("payload:" ++ key) value
      | _, _ => metadata)
    next

variable (existing next : ContinuationRecord)

/-- The reports of `existing` are still to be delivered, to the receiver of `next`. -/
def sharesDelivery : Bool :=
  existing.status != .completed && existing.groupId == next.groupId &&
    existing.metadata.get "session_id" == next.metadata.get "session_id" &&
    existing.metadata.get "profile_id" == next.metadata.get "profile_id" &&
    continuationWorkspace existing == continuationWorkspace next

/-- Both times by `pick`, or the one there is. -/
def mergeTime (pick : ℕ → ℕ → ℕ) : Option ℕ → Option ℕ → Option ℕ
  | some a, some b => some (pick a b)
  | some a, none => some a
  | none, b => b

/-- The next payload takes the place of the existing one. -/
def mergeContinuation : ContinuationRecord :=
  -- A payload behind a tombstone is a correction: the times of the tombstone are not its own.
  let isCorrection := next.status.rank < existing.status.rank
  { next with
    metadata :=
      if sharesDelivery existing next then carryCoalesced existing.metadata next.metadata
      else next.metadata
    startedAtMs :=
      if isCorrection then none else mergeTime min existing.startedAtMs next.startedAtMs
    completedAtMs :=
      if isCorrection then none else mergeTime max existing.completedAtMs next.completedAtMs
    result := next.result.or existing.result }

/-! ## Events -/

structure CohortEpochAdmission where
  cwdHash : ℕ
  epoch : ℕ

/-- `SupervisorEvent`. -/
inductive Event
  | groupRegistered (group : GroupRecord)
  | groupTerminal (groupId : String) (terminal : TerminalState)
  | childStarted (child : ChildRecord)
  | agentAdmitted (group : GroupRecord) (child : ChildRecord) (cohort : Option CohortEpochAdmission)
  | heartbeat (ping : HeartbeatPing)
  | childTerminal (groupId childId : String) (terminal : TerminalState)
  | artifactUpdated (artifact : ArtifactRecord)
  | continuationQueued (continuation : ContinuationRecord)
  | continuationStarted (groupId continuationId : String) (startedAtMs attempt : ℕ)
  | continuationCompleted (groupId continuationId : String) (completedAtMs : ℕ)
      (result : Option String) (attempt : ℕ)
  | groupEpochBumped (groupId : String) (newEpoch observedAtMs cwdHash : ℕ)
  | cohortAdmission (groupId : String) (cwdHash : ℕ) (childId : String) (newEpoch observedAtMs : ℕ)

/-- `SupervisorEventLedgerRow`. Sequences are `u64` and saturate: what is said about them is about
fewer than `2 ^ 64` rows. -/
structure LedgerRow where
  eventId : String
  sequence : ℕ
  recordedAtMs : ℕ
  event : Event

def childKey (groupId childId : String) : String := groupId ++ "/" ++ childId

def artifactKey (groupId artifactId : String) : String := groupId ++ "/" ++ artifactId

def continuationKey (groupId continuationId : String) : String := groupId ++ "/" ++ continuationId

structure SupervisorState where
  groups : Table String GroupRecord := .empty
  children : Table String ChildRecord := .empty
  artifacts : Table String ArtifactRecord := .empty
  continuations : Table String ContinuationRecord := .empty
  appliedEventIds : List String := []
  lastSequence : ℕ := 0

end Octos.Supervision
