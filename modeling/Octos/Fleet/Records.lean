import Octos.Base.Checked

/-!
# Records of the fleet kernel

The durable records of the fleet kernel store, as `records.rs` and `grant.rs` declare them. A row
is dropped on load when its schema version is newer than the one this code writes (`decodeRow`).
A JSON payload is kept as its text.
-/

namespace Octos.Fleet

def schemaVersion : UInt32 := 3

/-! ## Status enumerations -/

inductive FleetStatus
  | active | draining | complete | failed | cancelled
  deriving DecidableEq

/-- Lifecycle of a single child, which is one plan task. -/
inductive ChildStatus
  | planned | ready | launching | running | blocked | succeeded | failed | cancelled
  deriving DecidableEq

/-- A child in a terminal state cannot launch or transition further. `blocked` is a pause, not
terminal. -/
def ChildStatus.isTerminal : ChildStatus → Bool
  | .succeeded | .failed | .cancelled => true
  | _ => false

inductive AttemptStatus
  | leased | running | done | interrupted
  deriving DecidableEq

inductive WorkerKind
  | statelessTask

inductive FleetEventKind
  | childLaunching | childRunning | childDone | fleetDrained
  deriving DecidableEq

inductive DecisionKind
  | plan | launch | complete | reconcile | replan | cancel | note
  deriving DecidableEq

/-! ## Grants -/

inductive NetworkGrant
  | none
  | hosts (hosts : List String)
  | full
  deriving DecidableEq

inductive FsGrant
  | workspace | host
  deriving DecidableEq

structure WorkerGrant where
  network : NetworkGrant
  tools : List String
  fs : FsGrant
  writePaths : Option (List String)
  createOnly : Bool
  deriving DecidableEq

/-- The base file tools every closed worker holds by default. -/
def baseTools : List String :=
  ["read_file", "write_file", "edit_file", "glob", "grep", "list_dir", "shell"]

def WorkerGrant.minimal : WorkerGrant :=
  { network := .none, tools := baseTools, fs := .workspace, writePaths := .none,
    createOnly := false }

/-- A worker's mid-task request to widen its grant. -/
structure EscalationRequest where
  requestedGrant : WorkerGrant
  reason : String
  deriving DecidableEq

/-! ## Fleets, children and attempts -/

structure FleetBudget where
  tokenBudget : UInt64
  tokensReserved : UInt64
  tokensCommitted : UInt64
  hard : Bool

/-- Reserving `projected` more tokens keeps the fleet within its budget; a sum that overflows is
not admitted. -/
def FleetBudget.admits (b : FleetBudget) (projected : UInt64) : Bool :=
  match (checkedAdd b.tokensReserved b.tokensCommitted).bind (checkedAdd · projected) with
  | some total => total ≤ b.tokenBudget
  | none => false

structure FleetRecord where
  schemaVersion : UInt32
  fleetId : String
  controllerSessionKey : String
  controllerWorkspaceRoot : Option String
  controllerWorkspaceHasRuntimeHint : Option Bool
  profileId : String
  budget : FleetBudget
  status : FleetStatus
  generation : UInt64
  createdAtMs : UInt64
  updatedAtMs : UInt64

structure EvidenceRef where
  kind : String
  locator : String
  sha256 : String
  capturedAtMs : UInt64
  deriving DecidableEq

inductive AcceptanceVerdict
  | accepted (evidence : List EvidenceRef)
  | rejected (reason : String)
  | terminated (reason : String)
  deriving DecidableEq

def AcceptanceVerdict.isAccepted : AcceptanceVerdict → Bool
  | .accepted _ => true
  | _ => false

/-- A child row: the live state of one plan task. -/
structure FleetChildRecord where
  schemaVersion : UInt32
  fleetId : String
  childId : String
  workerKind : WorkerKind
  status : ChildStatus
  currentAttemptId : Option String
  attemptsUsed : UInt32
  outcome : Option AcceptanceVerdict
  tokensCommitted : UInt64
  deps : List String
  pendingEscalation : Option EscalationRequest
  generation : UInt64
  updatedAtMs : UInt64

/-- The daemon-boot lease guarding a live attempt. -/
structure Lease where
  ownerEpoch : UInt64
  expiresAtMs : UInt64

/-- Self-contained snapshot of a completed attempt's result. -/
structure ChildResultSnapshot where
  output : String
  success : Bool
  tokensUsed : UInt64
  files : List String
  error : Option String
  deriving DecidableEq

structure Attempt where
  schemaVersion : UInt32
  fleetId : String
  childId : String
  attemptId : String
  generation : UInt64
  status : AttemptStatus
  lease : Lease
  reservedTokens : UInt64
  resultSnapshot : Option ChildResultSnapshot
  startedAtMs : UInt64
  endedAtMs : Option UInt64

/-- An attempt is live while it is leased or running: it holds a reservation. -/
def AttemptStatus.isLive : AttemptStatus → Bool
  | .leased | .running => true
  | .done | .interrupted => false

/-! ## Plans, decisions and events -/

inductive Verifier
  | manual
  | fileExists (path : String)
  | commandExit (cmd : String) (code : Int32)
  | validatorRef (id : String)
  deriving DecidableEq

structure AcceptanceCriterion where
  id : String
  description : String
  verifier : Verifier
  deriving DecidableEq

/-- One task of the durable plan: the specification, free of execution state. -/
structure PlanTask where
  taskId : String
  title : String
  detail : String
  deps : List String
  acceptance : List AcceptanceCriterion
  grant : WorkerGrant
  deriving DecidableEq

structure DurablePlan where
  schemaVersion : UInt32
  fleetId : String
  revision : UInt64
  objective : String
  tasks : List PlanTask
  deriving DecidableEq

structure DecisionEntry where
  schemaVersion : UInt32
  seq : UInt64
  atMs : UInt64
  actor : String
  kind : DecisionKind
  note : String

/-- An outbox row: an event and its claim. -/
structure OutboxEvent where
  schemaVersion : UInt32
  sequence : UInt64
  eventId : String
  fleetId : String
  childId : Option String
  attemptId : Option String
  kind : FleetEventKind
  payload : String
  claimedBy : Option String
  claimToken : Option String
  claimExpiresAt : Option UInt64
  acked : Bool
  deriving DecidableEq

/-! ## Decoding rows -/

/-- Rows that carry a schema version. -/
class Versioned (α : Type) where
  version : α → UInt32

instance : Versioned FleetRecord := ⟨FleetRecord.schemaVersion⟩
instance : Versioned FleetChildRecord := ⟨FleetChildRecord.schemaVersion⟩
instance : Versioned Attempt := ⟨Attempt.schemaVersion⟩
instance : Versioned DurablePlan := ⟨DurablePlan.schemaVersion⟩
instance : Versioned OutboxEvent := ⟨OutboxEvent.schemaVersion⟩

/-- Decode a persisted row, dropping it when its schema version is newer than ours. -/
def decodeRow {α : Type} [Versioned α] (row : α) : Option α :=
  if Versioned.version row > schemaVersion then none else some row

variable {α : Type}

theorem decodeRow_eq_some [Versioned α] {row r : α} :
    decodeRow row = some r ↔ Versioned.version row ≤ schemaVersion ∧ row = r := by
  unfold decodeRow
  split_ifs with h
  · simp [UInt32.not_le.mpr h]
  · simp [UInt32.not_lt.mp h]

theorem bind_decodeRow_filter [Versioned α] {o : Option α} {p : α → Bool}
    (h : ∀ row, o = some row → Versioned.version row ≤ schemaVersion ∧ p row = true) :
    (o.bind decodeRow).filter p = o := by
  cases o with
  | none => rfl
  | some row =>
    obtain ⟨hver, hp⟩ := h row rfl
    rw [Option.bind_some, decodeRow_eq_some.mpr ⟨hver, rfl⟩, Option.filter_some, if_pos hp]

/-- A row that is read and decoded is the row itself. -/
theorem readRow_eq_ok {α β ε : Type} [Versioned α] {o : Option α} {e e' : ε} {f : α → Except ε β}
    {b : β} (h : (orError o e >>= fun row => orError (decodeRow row) e' >>= f) = .ok b) :
    ∃ row, o = some row ∧ f row = .ok b := by
  obtain ⟨row, hrow, h⟩ := bind_eq_ok.mp h
  obtain ⟨r, hr, h⟩ := bind_eq_ok.mp h
  obtain ⟨-, rfl⟩ := decodeRow_eq_some.mp (orError_eq_ok.mp hr)
  exact ⟨row, orError_eq_ok.mp hrow, h⟩

/-! ## Budget admission -/

theorem FleetBudget.admits_iff (b : FleetBudget) (projected : UInt64) :
    b.admits projected = true ↔
      b.tokensReserved.toNat + b.tokensCommitted.toNat + projected.toNat ≤ b.tokenBudget.toNat := by
  have hb := b.tokenBudget.toNat_lt
  unfold FleetBudget.admits
  cases h₁ : checkedAdd b.tokensReserved b.tokensCommitted with
  | none =>
    have := checkedAdd_eq_none.mp h₁
    simp only [Option.bind_none, Bool.false_eq_true, false_iff]
    omega
  | some s =>
    have hs := checkedAdd_eq_some.mp h₁
    rw [Option.bind_some]
    cases h₂ : checkedAdd s projected with
    | none =>
      have := checkedAdd_eq_none.mp h₂
      simp only [Bool.false_eq_true, false_iff]
      omega
    | some t =>
      have ht := checkedAdd_eq_some.mp h₂
      simp only [decide_eq_true_eq, UInt64.le_iff_toNat_le]
      omega

end Octos.Fleet
