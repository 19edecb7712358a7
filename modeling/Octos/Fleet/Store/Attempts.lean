import Octos.Fleet.Store.Create

/-!
# Attempts: launch, run, complete, escalate

The compare-and-swap transitions of one child and its attempt. Each operation reads the rows it
addresses, checks its predicate on them, and writes the child, the attempt, the fleet's budget and
the outbox in one transaction. The attempt id a launch mints and the id of the appended event come
from the caller's random generator; they are arguments here.
-/

namespace Octos.Fleet

/-- The four-part predicate: the attempt is the child's current one, it runs, it belongs to the
fleet's generation, and the caller holds its lease. -/
def holdsFence (child : FleetChildRecord) (attempt : Attempt) (fleet : FleetRecord)
    (attemptId : String) (ownerEpoch : UInt64) : Bool :=
  child.currentAttemptId = some attemptId && attempt.status = .running &&
    attempt.generation = fleet.generation && attempt.lease.ownerEpoch = ownerEpoch

/-- The child a completion leaves: terminal, with the verdict as its outcome. -/
def completedChild (verdict : AcceptanceVerdict) (child : FleetChildRecord) : FleetChildRecord :=
  { child with
    status := if verdict.isAccepted then .succeeded else .failed, outcome := some verdict }

/-- The child an escalation leaves: blocked, with the request pending and no attempt. `blocked` is
a variant of the newest schema, so the row is stamped with it. -/
def blockedChild (request : EscalationRequest) (child : FleetChildRecord) : FleetChildRecord :=
  { child with
    status := .blocked, schemaVersion := schemaVersion, pendingEscalation := some request,
    currentAttemptId := none }

namespace FleetKernelStore

variable (s : FleetKernelStore)

/-- Launch a ready child: lease a fresh attempt and reserve its projected tokens. -/
def launchChild (fleetId childId : String) (projectedTokens nowMs ownerEpoch leaseTtlMs : UInt64)
    (attemptId eventId : String) : Except StoreError (Committed LaunchOutcome) := do
  ensureKeySafe [fleetId, childId]
  let some child := s.child fleetId childId | return (s, .rejectedNotReady)
  if child.status ≠ .ready then
    if (child.status = .launching ∨ child.status = .running) ∧ child.currentAttemptId.isSome then
      return (s, .rejectedDoubleLaunch)
    else
      return (s, .rejectedNotReady)
  if child.currentAttemptId.isSome then
    return (s, .rejectedDoubleLaunch)
  let some fleet := s.fleet fleetId | return (s, .rejectedNotReady)
  if !fleetIsLive fleet then
    return (s, .rejectedFleetTerminal)
  if !fleet.budget.admits projectedTokens then
    return (s, .rejectedBudgetExceeded)
  -- every value is computed before the first write, so an overflow aborts cleanly
  let reserved ← orError (checkedAdd fleet.budget.tokensReserved projectedTokens)
    (.reservationOverflow childId)
  let expires ← orError (checkedAdd nowMs leaseTtlMs) (.leaseExpiryOverflow childId)
  let used ← orError (checkedAdd32 child.attemptsUsed 1) (.attemptsUsedOverflow childId)
  let children := s.children.insert (childKey fleetId childId)
    { child with
      status := .launching, currentAttemptId := some attemptId, attemptsUsed := used,
      updatedAtMs := nowMs }
  let attempts := s.attempts.insert (attemptKey childId attemptId)
    { schemaVersion := schemaVersion, fleetId, childId, attemptId,
      generation := fleet.generation, status := .leased,
      lease := { ownerEpoch, expiresAtMs := expires }, reservedTokens := projectedTokens,
      resultSnapshot := none, startedAtMs := nowMs, endedAtMs := none }
  let fleets := s.fleets.insert fleetId
    { fleet with budget := { fleet.budget with tokensReserved := reserved }, updatedAtMs := nowMs }
  let (outbox, _) ← appendOutbox s.outbox
    (outboxEvent .childLaunching eventId fleetId (some childId) (some attemptId))
  return ({ s with fleets, children, attempts, outbox }, .launched attemptId)

/-- Move a leased attempt and its launching child to running. -/
def markRunning (childId attemptId : String) :
    Except StoreError (Committed MarkRunningOutcome) := do
  ensureKeySafe [childId, attemptId]
  let some attempt := s.attempt childId attemptId | return (s, .superseded)
  let some child := s.child attempt.fleetId childId | return (s, .superseded)
  let some fleet := s.fleet attempt.fleetId | return (s, .superseded)
  if !fleetIsLive fleet then
    return (s, .superseded)
  if child.currentAttemptId ≠ some attemptId ∨ child.status ≠ .launching ∨
      attempt.status ≠ .leased ∨ attempt.generation ≠ fleet.generation then
    return (s, .superseded)
  let attempts :=
    s.attempts.insert (attemptKey childId attemptId) { attempt with status := .running }
  let children := s.children.insert (childKey attempt.fleetId childId)
    { child with status := .running }
  return ({ s with attempts, children }, .running)

variable (fleetId childId attemptId : String)

/-- Settle a running attempt, the transaction a completion and an escalation share: check the
fence, commit the actual tokens and release the reservation, write the child and the attempt as
`child'` and `attempt'` say, and append the event that wakes the keeper. -/
def settleRunning (actualTokens ownerEpoch nowMs : UInt64) (eventId : String)
    (overflow : StoreError) (underflow : UInt64 → UInt64 → StoreError)
    (child' : FleetChildRecord → FleetChildRecord) (attempt' : Attempt → Attempt) :
    Except StoreError (Committed CompleteOutcome) := do
  ensureKeySafe [fleetId, childId, attemptId]
  let some child := s.child fleetId childId | return (s, .superseded)
  let some attempt := s.attempt childId attemptId | return (s, .superseded)
  let some fleet := s.fleet fleetId | return (s, .superseded)
  if attempt.fleetId ≠ fleetId then
    return (s, .superseded)
  if !fleetIsLive fleet then
    return (s, .superseded)
  if !holdsFence child attempt fleet attemptId ownerEpoch then
    return (s, .superseded)
  let committed ← orError (checkedAdd fleet.budget.tokensCommitted actualTokens) overflow
  let reserved ← orError (checkedSub fleet.budget.tokensReserved attempt.reservedTokens)
    (underflow attempt.reservedTokens fleet.budget.tokensReserved)
  let childCommitted ← orError (checkedAdd child.tokensCommitted actualTokens)
    (.childCommittedOverflow childId)
  let children := s.children.insert (childKey fleetId childId)
    { child' child with tokensCommitted := childCommitted, updatedAtMs := nowMs }
  let attempts := s.attempts.insert (attemptKey childId attemptId)
    { attempt' attempt with endedAtMs := some nowMs }
  let fleets := s.fleets.insert fleetId
    { fleet with
      budget := { fleet.budget with tokensCommitted := committed, tokensReserved := reserved },
      updatedAtMs := nowMs }
  let (outbox, _) ← appendOutbox s.outbox
    (outboxEvent .childDone eventId fleetId (some childId) (some attemptId))
  return ({ s with fleets, children, attempts, outbox }, .completed)

/-- Complete a running attempt: the child takes the verdict, the attempt its result. -/
def completeChild (verdict : AcceptanceVerdict) (snapshot : ChildResultSnapshot)
    (actualTokens ownerEpoch nowMs : UInt64) (eventId : String) :
    Except StoreError (Committed CompleteOutcome) :=
  s.settleRunning fleetId childId attemptId actualTokens ownerEpoch nowMs eventId
    (.committedOverflowCompleting childId) (.reservationUnderflowCompleting childId)
    (completedChild verdict)
    fun attempt => { attempt with status := .done, resultSnapshot := some snapshot }

/-- Record a mid-task escalation: the running attempt yields, and the child waits, blocked, for
the operator's decision. -/
def recordEscalation (request : EscalationRequest) (actualTokens ownerEpoch nowMs : UInt64)
    (eventId : String) : Except StoreError (Committed CompleteOutcome) :=
  s.settleRunning fleetId childId attemptId actualTokens ownerEpoch nowMs eventId
    (.committedOverflowEscalating childId) (.reservationUnderflowEscalating childId)
    (blockedChild request)
    fun attempt => { attempt with status := .interrupted }

end FleetKernelStore

end Octos.Fleet
