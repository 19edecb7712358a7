import Octos.Fleet.Store.Outbox

/-!
# Creation, readiness and cancellation

Creating fleets, plans and children, promoting planned children whose dependencies succeeded, and
cancelling a fleet.
-/

namespace Octos.Fleet

def newFleet (fleetId controllerSessionKey : String) (controllerWorkspaceRoot : Option String)
    (controllerWorkspaceHasRuntimeHint : Option Bool) (profileId : String) (tokenBudget : UInt64)
    (hard : Bool) (nowMs : UInt64) : FleetRecord :=
  { schemaVersion := schemaVersion, fleetId, controllerSessionKey, controllerWorkspaceRoot,
    controllerWorkspaceHasRuntimeHint, profileId,
    budget := { tokenBudget, tokensReserved := 0, tokensCommitted := 0, hard },
    status := .active, generation := 0, createdAtMs := nowMs, updatedAtMs := nowMs }

def newChild (fleetId childId : String) (status : ChildStatus) (deps : List String)
    (generation nowMs : UInt64) : FleetChildRecord :=
  { schemaVersion := schemaVersion, fleetId, childId, workerKind := .statelessTask, status,
    currentAttemptId := none, attemptsUsed := 0, outcome := none, tokensCommitted := 0, deps,
    pendingEscalation := none, generation, updatedAtMs := nowMs }

/-- A child without dependencies starts ready, any other one planned. -/
def genesisStatus (deps : List String) : ChildStatus :=
  if deps.isEmpty then .ready else .planned

/-- One step of the genesis loop: the child of task `t`, unless its key is taken. -/
def insertGenesisChild (fleetId : String) (nowMs : UInt64)
    (children : Table String FleetChildRecord) (t : PlanTask) :
    Except StoreError (Table String FleetChildRecord) :=
  match children.get (childKey fleetId t.taskId) with
  | some _ => .error (.duplicateChild t.taskId fleetId)
  | none => .ok (children.insert (childKey fleetId t.taskId)
      (newChild fleetId t.taskId (genesisStatus t.deps) t.deps 0 nowMs))

namespace FleetKernelStore

variable (s : FleetKernelStore)

def createFleet (fleetId controllerSessionKey : String) (controllerWorkspaceRoot : Option String)
    (profileId : String) (tokenBudget : UInt64) (hard : Bool) (nowMs : UInt64) :
    Except StoreError (Committed Unit) := do
  ensureKeySafe [fleetId]
  match s.fleets.get fleetId with
  | some _ => .error (.fleetExists fleetId)
  | none =>
    let fleets := s.fleets.insert fleetId (newFleet fleetId controllerSessionKey
      controllerWorkspaceRoot none profileId tokenBudget hard nowMs)
    .ok ({ s with fleets }, ())

/-- Create the durable plan of a fleet; an existing plan is never overwritten. -/
def createPlan (plan : DurablePlan) : Except StoreError (Committed PlanMutateOutcome) := do
  ensureKeySafe [plan.fleetId]
  ensureKeySafe (taskKeyComponents plan.tasks)
  let row ← orError (s.fleets.get plan.fleetId) (.planForUnknownFleet plan.fleetId)
  let fleet ← orError (decodeRow row) (.fleetNewerSchema plan.fleetId)
  if fleet.fleetId ≠ plan.fleetId then
    .error (.planFleetMismatch plan.fleetId)
  else if !fleetIsLive fleet then
    .ok (s, .rejectedFleetTerminal)
  else match s.plans.get plan.fleetId with
  | some _ => .error (.planExistsUseReplan plan.fleetId)
  | none =>
    let plans := s.plans.insert plan.fleetId { plan with schemaVersion := schemaVersion }
    .ok ({ s with plans }, .mutated plan.revision)

/-- Create a fleet, its plan and one child per task in one transaction. -/
def createFleetWithPlan (controllerSessionKey : String) (controllerWorkspaceRoot : Option String)
    (controllerWorkspaceHasRuntimeHint : Option Bool) (profileId : String) (tokenBudget : UInt64)
    (hard : Bool) (plan : DurablePlan) (nowMs : UInt64) : Except StoreError (Committed Unit) := do
  ensureKeySafe [plan.fleetId]
  ensureKeySafe (taskKeyComponents plan.tasks)
  match s.fleets.get plan.fleetId, s.plans.get plan.fleetId with
  | some _, _ => .error (.fleetExists plan.fleetId)
  | none, some _ => .error (.planExists plan.fleetId)
  | none, none => do
    let fleets := s.fleets.insert plan.fleetId (newFleet plan.fleetId controllerSessionKey
      controllerWorkspaceRoot controllerWorkspaceHasRuntimeHint profileId tokenBudget hard nowMs)
    let children ← plan.tasks.foldlM (insertGenesisChild plan.fleetId nowMs) s.children
    let plans := s.plans.insert plan.fleetId { plan with schemaVersion := schemaVersion }
    return ({ s with fleets, children, plans }, ())

/-- Add a child to a live fleet; a duplicate child is rejected. -/
def addChild (fleetId childId : String) (deps : List String) (nowMs : UInt64) :
    Except StoreError (Committed Unit) := do
  ensureKeySafe [fleetId, childId]
  ensureKeySafe deps
  let row ← orError (s.fleets.get fleetId) (.childForUnknownFleet fleetId)
  let fleet ← orError (decodeRow row) (.fleetNewerSchema fleetId)
  if !fleetIsLive fleet then
    .error (.childForTerminalFleet fleetId)
  else match s.children.get (childKey fleetId childId) with
  | some _ => .error (.childExists childId fleetId)
  | none =>
    let children := s.children.insert (childKey fleetId childId)
      (newChild fleetId childId (genesisStatus deps) deps fleet.generation nowMs)
    .ok ({ s with children }, ())

def fleetLive (fleetId : String) : Bool := (s.fleet fleetId).any fleetIsLive

/-- Promote a planned child whose dependencies all succeeded. -/
def markReady (fleetId childId : String) (nowMs : UInt64) : Except StoreError (Committed Bool) := do
  ensureKeySafe [fleetId, childId]
  if !s.fleetLive fleetId then
    return (s, false)
  let row ← orError (s.children.get (childKey fleetId childId))
    (.markReadyUnknownChild childId fleetId)
  let child ← orError (decodeRow row) (.childNewerSchema childId)
  if child.fleetId ≠ fleetId ∨ child.childId ≠ childId then
    .error .markReadyMismatch
  else if child.status ≠ .planned then
    return (s, false)
  else if child.deps.all fun d => (s.child fleetId d).any (·.status = .succeeded) then
    let children := s.children.insert (childKey fleetId childId)
      { child with status := .ready, updatedAtMs := nowMs }
    return ({ s with children }, true)
  else
    return (s, false)

/-- The decodable child rows of the fleet that own their keys, in key order. -/
def fleetChildren (fleetId : String) : List FleetChildRecord :=
  s.children.entries.filterMap fun p => (decodeRow p.2).filter fun r =>
    r.fleetId = fleetId ∧ childKey r.fleetId r.childId = p.1

end FleetKernelStore

def succeededIds (recs : List FleetChildRecord) : List String :=
  (recs.filter (·.status = .succeeded)).map (·.childId)

/-- A planned child without an attempt whose dependencies succeeded. -/
def FleetChildRecord.promotable (c : FleetChildRecord) (succeeded : List String) : Bool :=
  c.status = .planned && c.currentAttemptId = none && c.deps.all (succeeded.contains ·)

def promote (succeeded : List String) (nowMs : UInt64) (c : FleetChildRecord) : FleetChildRecord :=
  if c.promotable succeeded then { c with status := .ready, updatedAtMs := nowMs } else c

/-- A ready child without an attempt. -/
def FleetChildRecord.launchable (c : FleetChildRecord) : Bool :=
  c.status = .ready && c.currentAttemptId = none

/-- One step of the readiness loop: promote the child, writing it back if it changed, and collect
it if it is launchable. -/
def resolveStep (fleetId : String) (succeeded : List String) (nowMs : UInt64)
    (acc : Table String FleetChildRecord × List String) (c : FleetChildRecord) :
    Table String FleetChildRecord × List String :=
  let c' := promote succeeded nowMs c
  (if c.promotable succeeded then acc.1.insert (childKey fleetId c.childId) c' else acc.1,
    if c'.launchable then acc.2 ++ [c'.childId] else acc.2)

namespace FleetKernelStore

variable (s : FleetKernelStore)

/-- Promote every planned child whose dependencies succeeded and collect the launchable set. -/
def resolveAndCollectReady (fleetId : String) (nowMs : UInt64) :
    Except StoreError (Committed (List String)) := do
  ensureKeySafe [fleetId]
  if !s.fleetLive fleetId then
    return (s, [])
  let recs := s.fleetChildren fleetId
  let (children, ready) :=
    recs.foldl (resolveStep fleetId (succeededIds recs) nowMs) (s.children, [])
  return ({ s with children }, ready.insertionSort (· ≤ ·))

/-- Terminalize a live fleet; any other fleet is left alone. -/
def cancelFleet (fleetId : String) (nowMs : UInt64) : Except StoreError (Committed Bool) := do
  ensureKeySafe [fleetId]
  let some fleet := (s.fleets.get fleetId).bind decodeRow | return (s, false)
  if fleet.fleetId ≠ fleetId then
    .error .cancelMismatch
  else if !fleetIsLive fleet then
    return (s, false)
  else
    let fleets := s.fleets.insert fleetId { fleet with status := .cancelled, updatedAtMs := nowMs }
    return ({ s with fleets }, true)

/-- Read a fleet, its plan and all its children, sorted by child id. -/
def loadSnapshot (fleetId : String) : Except StoreError (Option FleetSnapshot) := do
  ensureKeySafe [fleetId]
  let some fleet := s.fleet fleetId | return none
  let children := s.children.values.filterMap fun r =>
    (decodeRow r).filter fun r => r.fleetId = fleetId
  return some
    { fleet, plan := s.plan fleetId,
      children := children.insertionSort fun a b => a.childId ≤ b.childId }

end FleetKernelStore

end Octos.Fleet
