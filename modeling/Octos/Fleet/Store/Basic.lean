import Octos.Base.Table
import Octos.Base.Keys
import Octos.Fleet.Records

/-!
# The fleet kernel store

The six tables of `FleetKernelStore`, its keys, its errors and its reply types. Every operation of
the store is one write transaction: it reads rows, decides, and either commits the tables it wrote
or drops them. An operation is modeled as a function from the store to the committed store with
the reply, or an error; a reply that does not commit returns the store it was given.
-/

namespace Octos.Fleet

/-! ## Errors -/

/-- The errors of the store, one for each error text of the source. -/
inductive StoreError
  | invalidKeyComponent (component : String)
  | fleetExists (fleetId : String)
  | planForUnknownFleet (fleetId : String)
  | fleetNewerSchema (fleetId : String)
  | planFleetMismatch (fleetId : String)
  | planExistsUseReplan (fleetId : String)
  | planExists (fleetId : String)
  | duplicateChild (taskId fleetId : String)
  | childForUnknownFleet (fleetId : String)
  | childForTerminalFleet (fleetId : String)
  | childExists (childId fleetId : String)
  | markReadyUnknownChild (childId fleetId : String)
  | childNewerSchema (childId : String)
  | markReadyMismatch
  | cancelMismatch
  | reservationOverflow (childId : String)
  | leaseExpiryOverflow (childId : String)
  | attemptsUsedOverflow (childId : String)
  | committedOverflowCompleting (childId : String)
  | reservationUnderflowCompleting (childId : String) (reserved tokensReserved : UInt64)
  | committedOverflowEscalating (childId : String)
  | reservationUnderflowEscalating (childId : String) (reserved tokensReserved : UInt64)
  | childCommittedOverflow (childId : String)
  | replanNoPlan (fleetId : String)
  | replanPlanNewerSchema (fleetId : String)
  | replanPlanMismatch (fleetId : String)
  | replanNoFleet (fleetId : String)
  | replanFleetNewerSchema (fleetId : String)
  | replanFleetMismatch (fleetId : String)
  | generationOverflow (fleetId : String)
  | revisionOverflowReplanning (fleetId : String)
  | reservationUnderflowInterrupting (childId : String)
  | retitleNoPlan (fleetId : String)
  | retitlePlanNewerSchema (fleetId : String)
  | retitlePlanMismatch (fleetId : String)
  | retitleUnknownTask (taskId fleetId : String)
  | revisionOverflowRetitling (fleetId : String)
  | grantNoPlan (fleetId : String)
  | grantPlanNewerSchema (fleetId : String)
  | grantPlanMismatch (fleetId : String)
  | grantUnknownTask (taskId fleetId : String)
  | revisionOverflowGranting (fleetId : String)
  | revisionOverflowDenying (fleetId : String)
  | reservationUnderflowReconciling (childId : String) (reserved tokensReserved : UInt64)
  | corruptOutboxKey (key : String)
  | outboxSequenceOverflow
  | claimExpiryOverflow
  | ackNotFound (sequence : UInt64)
  | outboxEventNewerSchema (sequence : UInt64)
  | decisionSequenceOverflow (fleetId : String)
  deriving DecidableEq

/-- The errors that report a reservation released twice. -/
def StoreError.isReservationUnderflow : StoreError → Bool
  | .reservationUnderflowCompleting .. | .reservationUnderflowEscalating ..
  | .reservationUnderflowInterrupting _ | .reservationUnderflowReconciling .. => true
  | _ => false

/-- The errors that report a token count leaving the range of `u64`. -/
def StoreError.isTokenArithmetic : StoreError → Bool
  | .reservationOverflow _ | .committedOverflowCompleting _ | .committedOverflowEscalating _
  | .childCommittedOverflow _ => true
  | e => e.isReservationUnderflow

/-! ## Keys -/

/-- The Unicode category Cc. -/
def isControl (c : Char) : Bool := c.toNat ≤ 0x1f || (0x7f ≤ c.toNat && c.toNat ≤ 0x9f)

/-- A key component is safe if it is non-empty and carries no control characters. -/
def keyComponentIsSafe (s : String) : Bool := !s.isEmpty && !s.toList.any isControl

def ensureKeySafe : List String → Except StoreError Unit
  | [] => .ok ()
  | c :: cs => if keyComponentIsSafe c then ensureKeySafe cs else .error (.invalidKeyComponent c)

/-- The key components a task list contributes: each task id, then its dependencies. -/
def taskKeyComponents (tasks : List PlanTask) : List String :=
  tasks.flatMap fun t => t.taskId :: t.deps

def childKey (fleetId childId : String) : String := joinNul fleetId childId

def attemptKey (childId attemptId : String) : String := joinNul childId attemptId

def decisionKey (fleetId : String) (seq : UInt64) : String :=
  joinNul fleetId (zeroPad 20 seq.toNat)

def outboxKey (seq : UInt64) : String := zeroPad 20 seq.toNat

def decisionSeq (key fleetId : String) : Option UInt64 :=
  (stripPrefix (fleetId ++ "\x00") key).bind parseU64

theorem ensureKeySafe_eq_ok {cs : List String} :
    ensureKeySafe cs = .ok () ↔ ∀ c ∈ cs, keyComponentIsSafe c = true := by
  induction cs with
  | nil => simp [ensureKeySafe]
  | cons c cs ih =>
    rw [ensureKeySafe]
    split_ifs with h <;> simp [h, ih]

theorem nulFree_of_safe {s : String} (h : keyComponentIsSafe s = true) : NulFree s := by
  intro hm
  simp only [keyComponentIsSafe, Bool.and_eq_true, Bool.not_eq_true', List.any_eq_false] at h
  exact h.2 _ hm rfl

theorem childKey_inj {f c f' c' : String} (hf : keyComponentIsSafe f = true)
    (hf' : keyComponentIsSafe f' = true) : childKey f c = childKey f' c' ↔ f = f' ∧ c = c' :=
  joinNul_inj (nulFree_of_safe hf) (nulFree_of_safe hf')

theorem attemptKey_inj {c a c' a' : String} (hc : keyComponentIsSafe c = true)
    (hc' : keyComponentIsSafe c' = true) : attemptKey c a = attemptKey c' a' ↔ c = c' ∧ a = a' :=
  joinNul_inj (nulFree_of_safe hc) (nulFree_of_safe hc')

/-! ## The tables -/

/-- The tables of the store, with rows decoded from their JSON text. -/
structure FleetKernelStore where
  fleets : Table String FleetRecord
  children : Table String FleetChildRecord
  attempts : Table String Attempt
  plans : Table String DurablePlan
  decisionLog : Table String DecisionEntry
  outbox : Table String OutboxEvent

namespace FleetKernelStore

/-- The store that `open` creates in an empty directory. -/
def empty : FleetKernelStore := ⟨.empty, .empty, .empty, .empty, .empty, .empty⟩

variable (s : FleetKernelStore)

/-- The fleet row addressed by its own id, when it decodes. -/
def fleet (fleetId : String) : Option FleetRecord :=
  ((s.fleets.get fleetId).bind decodeRow).filter fun r => r.fleetId = fleetId

/-- The child row addressed by its own ids, when it decodes. -/
def child (fleetId childId : String) : Option FleetChildRecord :=
  ((s.children.get (childKey fleetId childId)).bind decodeRow).filter fun r =>
    r.fleetId = fleetId ∧ r.childId = childId

/-- The attempt row addressed by its own ids, when it decodes. -/
def attempt (childId attemptId : String) : Option Attempt :=
  ((s.attempts.get (attemptKey childId attemptId)).bind decodeRow).filter fun r =>
    r.childId = childId ∧ r.attemptId = attemptId

/-- The plan row of the fleet, when it decodes. -/
def plan (fleetId : String) : Option DurablePlan :=
  ((s.plans.get fleetId).bind decodeRow).filter fun r => r.fleetId = fleetId

end FleetKernelStore

/-- Only an active or draining fleet accepts mutations. -/
def fleetIsLive (fleet : FleetRecord) : Bool :=
  fleet.status = .active || fleet.status = .draining

/-- What a write transaction that did not fail leaves: the store and its reply. -/
abbrev Committed (α : Type) := FleetKernelStore × α

/-! ## Replies -/

inductive LaunchOutcome
  | launched (attemptId : String)
  | rejectedNotReady
  | rejectedDoubleLaunch
  | rejectedBudgetExceeded
  | rejectedFleetTerminal
  deriving DecidableEq

inductive CompleteOutcome
  | completed | superseded
  deriving DecidableEq

structure DenyEscalationOutcome where
  settled : CompleteOutcome
  fleetUnCompletable : Bool

inductive MarkRunningOutcome
  | running | superseded

inductive PlanMutateOutcome
  | mutated (revision : UInt64)
  | revisionMismatch (actual : UInt64)
  | rejectedFleetTerminal
  | rejectedTerminalDepChange (taskId : String)
  | rejectedNotBlocked (taskId : String)
  deriving DecidableEq

inductive AckOutcome
  | acked | staleClaim
  deriving DecidableEq

structure InterruptedAttempt where
  fleetId : String
  childId : String
  attemptId : String
  deriving DecidableEq

structure FleetSnapshot where
  fleet : FleetRecord
  plan : Option DurablePlan
  children : List FleetChildRecord

end Octos.Fleet
