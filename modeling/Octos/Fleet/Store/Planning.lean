import Octos.Fleet.Store.Attempts

/-!
# Plan mutations

The revision-fenced plan operations: replacing the plan (`replan`), rewriting a title, and the two
decisions on a blocked child, `setTaskGrant` and `denyEscalation`.
-/

namespace Octos.Fleet

def updateTask (taskId : String) (f : PlanTask → PlanTask) : List PlanTask → List PlanTask
  | [] => []
  | t :: ts => if t.taskId = taskId then f t :: ts else t :: updateTask taskId f ts

/-- A readiness status: ready when every dependency is in `succeeded`, else planned. -/
def readiness (succeeded deps : List String) : ChildStatus :=
  if deps.all (succeeded.contains ·) then .ready else .planned

/-- The tables a replan rewrites child by child, with the fleet's remaining reservation. -/
structure ReplanState where
  attempts : Table String Attempt
  children : Table String FleetChildRecord
  tokensReserved : UInt64

/-- Interrupt the child's current attempt if it is live, releasing its reservation. The flag tells
whether it was. -/
def interruptCurrent (fleetId : String) (nowMs : UInt64) (child : FleetChildRecord)
    (attempts : Table String Attempt) (tokensReserved : UInt64) :
    Except StoreError (Table String Attempt × UInt64 × Bool) := do
  let some aid := child.currentAttemptId | return (attempts, tokensReserved, false)
  let some att := (attempts.get (attemptKey child.childId aid)).bind decodeRow
    | return (attempts, tokensReserved, false)
  if att.fleetId = fleetId ∧ att.childId = child.childId ∧ att.attemptId = aid ∧
      att.status.isLive then
    let reserved ← orError (checkedSub tokensReserved att.reservedTokens)
      (.reservationUnderflowInterrupting child.childId)
    return (attempts.insert (attemptKey child.childId aid)
      { att with status := .interrupted, endedAtMs := some nowMs }, reserved, true)
  else
    return (attempts, tokensReserved, false)

/-- The row a replan leaves for an existing child. A surviving task keeps its success and is
otherwise restarted against its new dependencies; a removed task is cancelled. -/
def replanChild (tasks : List PlanTask) (succeeded : List String) (generation nowMs : UInt64)
    (interrupted : Bool) (child : FleetChildRecord) : FleetChildRecord :=
  let child :=
    { child with
      currentAttemptId := if interrupted then none else child.currentAttemptId,
      generation, updatedAtMs := nowMs }
  if (tasks.map (·.taskId)).contains child.childId then
    let deps := ((tasks.find? (·.taskId = child.childId)).map (·.deps)).getD []
    if child.status = .succeeded then { child with deps }
    else
      { child with
        deps, currentAttemptId := none, outcome := none, pendingEscalation := none,
        status := readiness succeeded deps }
  else
    { child with
      status := .cancelled, outcome := some (.terminated "removed by replan"),
      currentAttemptId := none, pendingEscalation := none }

def replanStep (fleetId : String) (tasks : List PlanTask) (succeeded : List String)
    (generation nowMs : UInt64) (st : ReplanState) (child : FleetChildRecord) :
    Except StoreError ReplanState := do
  let (attempts, tokensReserved, interrupted) ←
    interruptCurrent fleetId nowMs child st.attempts st.tokensReserved
  let children := st.children.insert (childKey fleetId child.childId)
    (replanChild tasks succeeded generation nowMs interrupted child)
  return { attempts, children, tokensReserved }

def insertNewTask (fleetId : String) (succeeded taken : List String) (generation nowMs : UInt64)
    (children : Table String FleetChildRecord) (task : PlanTask) :
    Table String FleetChildRecord :=
  if taken.contains task.taskId then children
  else children.insert (childKey fleetId task.taskId)
    (newChild fleetId task.taskId (readiness succeeded task.deps) task.deps generation nowMs)

/-- The first surviving task that changes the dependencies of a succeeded or failed child. -/
def terminalDepChange (existing : List FleetChildRecord) (tasks : List PlanTask) :
    Option PlanTask :=
  tasks.find? fun task =>
    match existing.find? (·.childId = task.taskId) with
    | some child => child.deps ≠ task.deps && (child.status = .succeeded || child.status = .failed)
    | none => false

namespace FleetKernelStore

variable (s : FleetKernelStore) (fleetId : String)

/-- The decodable children under the fleet's key prefix that own their keys. -/
def prefixChildren : List FleetChildRecord :=
  s.children.entries.filterMap fun p =>
    (stripPrefix (fleetId ++ "\x00") p.1).bind fun cid =>
      (decodeRow p.2).filter fun r => r.fleetId = fleetId ∧ r.childId = cid

/-- The ids under the fleet's key prefix whose rows do not decode or do not own their keys. -/
def undecodableIds : List String :=
  s.children.entries.filterMap fun p =>
    (stripPrefix (fleetId ++ "\x00") p.1).bind fun cid =>
      if ((decodeRow p.2).filter fun r => r.fleetId = fleetId ∧ r.childId = cid).isSome then none
      else some cid

/-- Replace the plan of a live fleet, restarting its children against the new one. -/
def replan (expectedRevision : UInt64) (newPlan : DurablePlan) (nowMs : UInt64) :
    Except StoreError (Committed PlanMutateOutcome) := do
  ensureKeySafe [fleetId]
  ensureKeySafe (taskKeyComponents newPlan.tasks)
  let row ← orError (s.plans.get fleetId) (.replanNoPlan fleetId)
  let plan ← orError (decodeRow row) (.replanPlanNewerSchema fleetId)
  if plan.fleetId ≠ fleetId then
    .error (.replanPlanMismatch fleetId)
  else if plan.revision ≠ expectedRevision then
    return (s, .revisionMismatch plan.revision)
  else
    let row ← orError (s.fleets.get fleetId) (.replanNoFleet fleetId)
    let fleet ← orError (decodeRow row) (.replanFleetNewerSchema fleetId)
    if fleet.fleetId ≠ fleetId then
      .error (.replanFleetMismatch fleetId)
    else if !fleetIsLive fleet then
      return (s, .rejectedFleetTerminal)
    else
      let newGen ← orError (checkedAdd fleet.generation 1) (.generationOverflow fleetId)
      let newRev ← orError (checkedAdd expectedRevision 1) (.revisionOverflowReplanning fleetId)
      let newIds := newPlan.tasks.map (·.taskId)
      let existing := s.prefixChildren fleetId
      -- a succeeded child that the new plan removes does not count as succeeded any more
      let succeeded :=
        (existing.filter fun c => c.status = .succeeded && newIds.contains c.childId).map
          (·.childId)
      match terminalDepChange existing newPlan.tasks with
      | some task => return (s, .rejectedTerminalDepChange task.taskId)
      | none =>
        let st ← existing.foldlM (replanStep fleetId newPlan.tasks succeeded newGen nowMs)
          ⟨s.attempts, s.children, fleet.budget.tokensReserved⟩
        let taken := existing.map (·.childId) ++ s.undecodableIds fleetId
        let children :=
          newPlan.tasks.foldl (insertNewTask fleetId succeeded taken newGen nowMs) st.children
        let plans := s.plans.insert fleetId
          { newPlan with schemaVersion := schemaVersion, fleetId, revision := newRev }
        let fleets := s.fleets.insert fleetId
          { fleet with
            budget := { fleet.budget with tokensReserved := st.tokensReserved },
            generation := newGen, updatedAtMs := nowMs }
        return ({ s with fleets, children, attempts := st.attempts, plans }, .mutated newRev)

/-- Rewrite the title and detail of one task; no child is touched. -/
def retitleTask (expectedRevision : UInt64) (taskId title detail : String) :
    Except StoreError (Committed PlanMutateOutcome) := do
  ensureKeySafe [fleetId, taskId]
  if !s.fleetLive fleetId then
    return (s, .rejectedFleetTerminal)
  let row ← orError (s.plans.get fleetId) (.retitleNoPlan fleetId)
  let plan ← orError (decodeRow row) (.retitlePlanNewerSchema fleetId)
  if plan.fleetId ≠ fleetId then
    .error (.retitlePlanMismatch fleetId)
  else if plan.revision ≠ expectedRevision then
    return (s, .revisionMismatch plan.revision)
  else if !plan.tasks.any (·.taskId = taskId) then
    .error (.retitleUnknownTask taskId fleetId)
  else
    let newRev ← orError (checkedAdd expectedRevision 1) (.revisionOverflowRetitling fleetId)
    let tasks := updateTask taskId (fun t => { t with title, detail }) plan.tasks
    let plans := s.plans.insert fleetId
      { plan with tasks, revision := newRev, schemaVersion := schemaVersion }
    return ({ s with plans }, .mutated newRev)

/-- Widen the grant of one task and resume its blocked child. -/
def setTaskGrant (expectedRevision : UInt64) (taskId : String) (grant : WorkerGrant)
    (nowMs : UInt64) : Except StoreError (Committed PlanMutateOutcome) := do
  ensureKeySafe [fleetId, taskId]
  if !s.fleetLive fleetId then
    return (s, .rejectedFleetTerminal)
  let row ← orError (s.plans.get fleetId) (.grantNoPlan fleetId)
  let plan ← orError (decodeRow row) (.grantPlanNewerSchema fleetId)
  if plan.fleetId ≠ fleetId then
    .error (.grantPlanMismatch fleetId)
  else if plan.revision ≠ expectedRevision then
    return (s, .revisionMismatch plan.revision)
  else if !plan.tasks.any (·.taskId = taskId) then
    .error (.grantUnknownTask taskId fleetId)
  else match s.child fleetId taskId with
  | none => return (s, .rejectedNotBlocked taskId)
  | some child =>
    if child.status ≠ .blocked then
      return (s, .rejectedNotBlocked taskId)
    else
      let newRev ← orError (checkedAdd expectedRevision 1) (.revisionOverflowGranting fleetId)
      let tasks := updateTask taskId (fun t => { t with grant }) plan.tasks
      let plans := s.plans.insert fleetId
        { plan with tasks, revision := newRev, schemaVersion := schemaVersion }
      let children := s.children.insert (childKey fleetId taskId)
        { child with
          status := .ready, pendingEscalation := none, currentAttemptId := none,
          updatedAtMs := nowMs }
      return ({ s with plans, children }, .mutated newRev)

/-- The status of a task's child after the denial, planned when it has no decodable row. -/
def statusAfterDeny (children : Table String FleetChildRecord) (fleetId : String)
    (denied : FleetChildRecord) (childId taskId : String) : ChildStatus :=
  if taskId = childId then denied.status
  else (((children.get (childKey fleetId taskId)).bind decodeRow).map (·.status)).getD .planned

/-- Deny the escalation of a blocked child: it fails, the plan's revision moves, and the reply
tells whether the fleet can still complete. -/
def denyEscalation (fleetId childId reason : String) (nowMs : UInt64) (eventId : String) :
    Except StoreError (Committed DenyEscalationOutcome) := do
  ensureKeySafe [fleetId, childId]
  if !s.fleetLive fleetId then
    return (s, ⟨.superseded, false⟩)
  let some child := s.child fleetId childId | return (s, ⟨.superseded, false⟩)
  if child.status ≠ .blocked then
    return (s, ⟨.superseded, false⟩)
  let child :=
    { child with
      status := .failed, outcome := some (.rejected s!"escalation denied: {reason}"),
      pendingEscalation := none, currentAttemptId := none, updatedAtMs := nowMs }
  let children := s.children.insert (childKey fleetId childId) child
  let (plans, unCompletable) ← (match s.plan fleetId with
    | none => .ok (s.plans, false)
    | some plan => do
      let revision ← orError (checkedAdd plan.revision 1) (.revisionOverflowDenying fleetId)
      let statuses :=
        plan.tasks.map fun t => statusAfterDeny children fleetId child childId t.taskId
      return (s.plans.insert fleetId { plan with revision, schemaVersion := schemaVersion },
        !statuses.all (· = .succeeded) && statuses.any (· = .failed)))
  let (outbox, _) ← appendOutbox s.outbox
    (outboxEvent .childDone eventId fleetId (some childId) none)
  return ({ s with children, plans, outbox }, ⟨.completed, unCompletable⟩)

end FleetKernelStore

end Octos.Fleet
