import Octos.Base.Threads
import Octos.Tasks.Signals

/-!
# The task supervisor

`octos-agent/src/task_supervisor.rs`: a supervisor keeps copies of background tasks, appends a
snapshot to a ledger for every transition, and owes a signal for every failure. Its calls come from
many threads. Each takes the locks of the supervisor for one critical section at a time, so the
model is a machine of sections: a section sees and changes the state, and what follows from it (the
snapshot to append, the failure to signal, the tasks to fail next) are sections of their own.

What differs from one section to the next and is not state is in a `Reading`: how far the clock has
moved on, whether the ledger can be written, and in which order a hash map is walked.
-/

namespace Octos.Tasks

/-! ## State -/

/-- The payloads of harness events, with the data that moves the task. -/
inductive HarnessEventPayload
  | progress
  | phase
  | retry
  | artifact
  | validatorResult (passed : Bool) (message : Option String)
  | failure (message : String)
  | mcpServerCall
  | subAgentDispatch
  | swarmDispatch
  | swarmReviewDecision
  | costAttribution
  | routingDecision
  | credentialRotation
  | sessionSanitized
  | subagentProgress
  | error

/-- What is fixed while a process runs. -/
structure Config where
  lower : Lowercase
  /-- `max_children_per_parent()`. -/
  maxChildrenPerParent : ℕ
  maxChildrenPerParent_pos : 0 < maxChildrenPerParent
  /-- The text of an event for a task, from the detail that it has. -/
  runtimeDetailValue : HarnessEventPayload → Option String → String
  /-- `{:?}` of a duration. -/
  debugDuration : ℕ → String

/-- What is asked of `register_full_with_workspace`. -/
structure Registration where
  toolName : String
  toolCallId : String
  sessionKey : Option String
  toolInput : Option Json
  originatingClientMessageId : Option String
  parentTerminalCheckToolCallId : Option String
  requirePersistence : Bool

inductive RegisterTaskError
  | childFanoutExceeded (parentSessionKey : String) (count cap : ℕ)
  | parentTerminal (parentToolCallId : String) (parentStatus : TaskStatus)
  | workspacePersistFailed (toolCallId : String)

/-- What the callers and listeners of a supervisor get to see, and what its books take in. -/
inductive Event
  | registered (id : TaskId)
  | refused (error : RegisterTaskError)
  | deferred (id : TaskId)
  | emitted (id : TaskId)
  | signalled (signal : SpawnOnlyFailureSignal)

/-- A supervisor. No section reads the log. -/
structure Supervisor where
  tasks : Table TaskId BackgroundTask
  poisonedParents : List String
  ackAndPending : AckAndPending
  /-- The path of the ledger is set. -/
  persistent : Bool
  log : List Event

def Supervisor.new : Supervisor := ⟨Table.empty, [], AckAndPending.empty, false, []⟩

/-- What the supervisors of a process share. -/
structure Process where
  ledger : List BackgroundTask
  /-- `live_detached_tasks`. -/
  live : List TaskId
  clock : ℕ
  nextId : TaskId

/-- A supervisor in its process. -/
structure World where
  supervisor : Supervisor
  process : Process

/-- What a section meets apart from the state. -/
structure Reading where
  tick : ℕ
  appends : Bool
  walk : List BackgroundTask → List BackgroundTask
  walk_perm : ∀ l, (walk l).Perm l
  walkPending : List (TaskId × PendingFailure) → List (TaskId × PendingFailure)
  walkPending_perm : ∀ l, (walkPending l).Perm l

namespace World

variable (w : World)

def getTask (id : TaskId) : Option BackgroundTask := w.supervisor.tasks.get id

def walkTasks (r : Reading) : List BackgroundTask := r.walk w.supervisor.tasks.values

def setTasks (tasks : Table TaskId BackgroundTask) : World :=
  { w with supervisor := { w.supervisor with tasks := tasks } }

def setBooks (books : AckAndPending) : World :=
  { w with supervisor := { w.supervisor with ackAndPending := books } }

def report (event : Event) : World :=
  { w with supervisor := { w.supervisor with log := w.supervisor.log ++ [event] } }

def isTaskLive (id : TaskId) : Bool := w.process.live.contains id

def markTaskLive (id : TaskId) : World :=
  { w with process := { w.process with live := id :: w.process.live.filter (· != id) } }

def clearTaskLive (id : TaskId) : World :=
  { w with process := { w.process with live := w.process.live.filter (· != id) } }

/-- A row is lost without a path, or when it cannot be written. -/
def persistSnapshot (r : Reading) (row : BackgroundTask) : World :=
  if w.supervisor.persistent && r.appends then
    { w with process := { w.process with ledger := w.process.ledger ++ [row] } }
  else w

def advance (tick : ℕ) : World :=
  { w with process := { w.process with clock := w.process.clock + tick } }

end World

/-! ## Sections -/

/-- A critical section that a thread has still to run. -/
inductive Act
  | mark (id : TaskId) (m : Mark)
  | persist (row : BackgroundTask)
  | persistById (id : TaskId)
  | applyHarnessEvent (id : TaskId) (event : HarnessEventPayload)
  | reapStuckTasks (now stuckTimeout : ℕ)
  | markDescendantsFailed (parentToolCallId reason : String)
  | markSynthAckEmitted (toolCallId : String)
  | notifyFailure (task : BackgroundTask)
  | dispatchFailureSignal (signal : SpawnOnlyFailureSignal)
  | invokeFailureCallback (signal : SpawnOnlyFailureSignal)
  | drainPendingFailure (id : TaskId)
  | markLive (id : TaskId)
  | clearLive (id : TaskId)
  | guardDrop (id : TaskId)
  | guardCheck (id : TaskId)
  | register (req : Registration)
  | registerPoisoned (key : String) (req : Registration)
  | registerRefuse (key : String)
  | registerCount (key : String) (req : Registration)
  | registerPoison (key : String) (count : ℕ)
  | registerFailChildren (key : String) (count : ℕ)
  | registerInsert (req : Registration)
  | refuse (error : RegisterTaskError)
  | enablePersistence
  | enableMerge (restored : Table TaskId BackgroundTask)
  | enableInstall (restoredWon : List TaskId)
  | enableSnapshot (restoredWon : List TaskId)
  | sweepOrphans
  | refreshFromPersistence
  | refreshMerge (restored : Table TaskId BackgroundTask)
  | refreshTaskFromPersistence (id : TaskId)
  | refreshTaskMerge (restored : Option BackgroundTask)

/-- What follows a transition that went through: the snapshot is appended (a parked task is read
once more), the first failure is signalled, and a completed or cancelled task owes no signal any
more. -/
def Mark.followUp (t t' : BackgroundTask) : Mark → List Act
  | .parked _ => [.persistById t'.id]
  | .completed _ => [.persist t', .drainPendingFailure t'.id]
  | .cancelled => [.persist t', .drainPendingFailure t'.id]
  | .failed _ _ => .persist t' :: if t.status = .failed then [] else [.notifyFailure t']
  | _ => [.persist t']

variable (w : World)

/-- The section of a transition: under the lock of the tasks, by the guard of the transition. -/
def markSection (id : TaskId) (m : Mark) : World × List Act :=
  match w.getTask id with
  | none => (w, [])
  | some t =>
    match m.apply w.process.clock t with
    | none => (w, [])
    | some t' => (w.setTasks (w.supervisor.tasks.insert id t'), m.followUp t t')

/-- `mark_failed` for each of some tasks. -/
def failEach (error : String) (tasks : List BackgroundTask) : List Act :=
  tasks.map fun t => .mark t.id (.failed error false)

variable (cfg : Config)

/-- `apply_harness_event`, for a task whose copy has been read. -/
def harnessActs (id : TaskId) (event : HarnessEventPayload) (snapshot : BackgroundTask) :
    List Act :=
  let runtimeState := fun state => Act.mark id
    (.runtimeState state (some (cfg.runtimeDetailValue event snapshot.runtimeDetail)))
  match event with
  | .progress => [runtimeState .executingTool]
  | .phase => [runtimeState .executingTool]
  | .retry => [runtimeState .executingTool]
  | .artifact => [runtimeState .deliveringOutputs]
  | .validatorResult passed message =>
    runtimeState .verifyingOutputs ::
      if passed then []
      else [.mark id
        (.failed (message.getD "validator rejected structured harness event") false)]
  | .failure message => [runtimeState .failed, .mark id (.failed message false)]
  | .mcpServerCall => []
  | .subAgentDispatch => [runtimeState .executingTool]
  | .swarmDispatch => [runtimeState .executingTool]
  | .swarmReviewDecision => [runtimeState snapshot.runtimeState]
  | .costAttribution => [runtimeState .executingTool]
  | .routingDecision => [runtimeState .executingTool]
  | .credentialRotation => [runtimeState snapshot.runtimeState]
  | .sessionSanitized => [runtimeState snapshot.runtimeState]
  | .subagentProgress => [runtimeState snapshot.runtimeState]
  | .error => [runtimeState snapshot.runtimeState]

variable (r : Reading)

/-- `reap_stuck_tasks`: the active tasks with a live worker that have been silent for too long. -/
def stuckTasks (now stuckTimeout : ℕ) : List BackgroundTask :=
  (w.walkTasks r).filter fun t =>
    t.status.isActive && w.isTaskLive t.id && t.updatedAt + stuckTimeout < now

def activeDescendants (parentToolCallId : String) : List BackgroundTask :=
  (w.walkTasks r).filter fun t =>
    t.toolCallId = parentToolCallId && t.status.isActive && t.isPipelineNode

/-! ### Signals -/

variable (t : BackgroundTask)

def failureSignal (alternatives : List String) : SpawnOnlyFailureSignal where
  taskId := t.id
  toolName := t.toolName
  toolInput := t.toolInput.getD .null
  errorMessage := t.error.getD ""
  suggestedAlternatives := alternatives
  parentSessionKey := t.parentSessionKey
  originatingClientMessageId := t.originatingClientMessageId

/-- The first signal of a task goes out. -/
def emitSignal (signal : SpawnOnlyFailureSignal) : World × List Act :=
  let marked := w.supervisor.ackAndPending.markEmitted signal.taskId
  if marked.1 then
    ((w.setBooks marked.2).report (.emitted signal.taskId), [.invokeFailureCallback signal])
  else (w, [])

/-- `notify_failure`, once the signal has been built: it goes out when the tool call has been
acknowledged and waits otherwise. -/
def signalOrDefer (alternatives : List String) : World × List Act :=
  let books := w.supervisor.ackAndPending
  if books.emittedTaskIds.contains t.id then (w, [])
  else if books.synthAckEmittedToolCallIds.contains t.toolCallId then
    emitSignal w (failureSignal t alternatives)
  else
    ((w.setBooks (books.insertPending t.id ⟨t.toolCallId, failureSignal t alternatives⟩)).report
      (.deferred t.id), [])

/-- A task without a tool call id is not signalled; a text that cannot be cut
panics. -/
def notifyFailure (w : World) (t : BackgroundTask) : World × Option (List Act) :=
  if t.toolCallId = "" then (w, some [])
  else
    match parseAlternatives cfg.lower (t.error.getD "") with
    | none => (w, none)
    | some alternatives =>
      ((signalOrDefer w t alternatives).1, some (signalOrDefer w t alternatives).2)

/-- The acknowledgement is recorded and what waited for it goes out. -/
def markSynthAckEmitted (toolCallId : String) : World × List Act :=
  if toolCallId = "" then (w, [])
  else
    let books := w.supervisor.ackAndPending
    let acked := { books with
      synthAckEmittedToolCallIds :=
        toolCallId :: books.synthAckEmittedToolCallIds.filter (· ≠ toolCallId) }
    let drained := acked.drainPendingForToolCall toolCallId
    (w.setBooks drained.2,
      (r.walkPending drained.1).map fun entry => .dispatchFailureSignal entry.2.signal)

/-! ### Registration -/

/-- `Iterator::max_by_key` of the time of the last update: the last of the latest. -/
def latestUpdated (tasks : List BackgroundTask) : Option BackgroundTask :=
  tasks.foldl (fun best t =>
    match best with
    | none => some t
    | some b => if b.updatedAt ≤ t.updatedAt then some t else some b) none

/-- An active parent before one that is not. -/
def pickParentStatus (tasks : List BackgroundTask) (parentToolCallId : String) :
    Option TaskStatus :=
  let parents := tasks.filter fun t => t.toolCallId = parentToolCallId && !t.isPipelineNode
  ((latestUpdated (parents.filter (·.status.isActive))).or (latestUpdated parents)).map (·.status)

/-- The error of a registration whose parent has ended. -/
def parentEnded (req : Registration) : Option RegisterTaskError :=
  (req.parentTerminalCheckToolCallId.filter (· ≠ "")).bind fun toolCallId =>
    ((pickParentStatus (w.walkTasks r) toolCallId).filter (·.isTerminal)).map
      (.parentTerminal toolCallId)

/-- The children of a session that are active or have a live worker. -/
def liveChildren (key : String) : ℕ :=
  w.supervisor.tasks.values.countP fun t =>
    t.parentSessionKey = some key && (t.status.isActive || w.isTaskLive t.id)

def newTask (id : TaskId) (now : ℕ) (req : Registration) : BackgroundTask where
  id := id
  toolName := req.toolName
  toolCallId := req.toolCallId
  parentSessionKey := req.sessionKey
  childTerminalState := none
  childJoinState := none
  childJoinedAt := none
  childFailureAction := none
  status := .spawned
  runtimeState := .spawned
  runtimeDetail := none
  updatedAt := now
  completedAt := none
  outputFiles := []
  error := none
  finalOutput := none
  failedByObserver := false
  toolInput := req.toolInput
  originatingClientMessageId := req.originatingClientMessageId
  summary := none
  artifactCount := none

/-- The first section of a registration; without a session there is nothing to count. -/
def registerStart (req : Registration) : List Act :=
  match parentEnded w r req with
  | some error => [.refuse error]
  | none => req.sessionKey.elim [.registerInsert req] fun key => [.registerPoisoned key req]

/-- The children of the session are counted, and the parent is looked up again. -/
def registerCount (w : World) (r : Reading) (key : String) (req : Registration) : List Act :=
  match parentEnded w r req with
  | some error => [.refuse error]
  | none =>
    if cfg.maxChildrenPerParent ≤ liveChildren w key then [.registerPoison key (liveChildren w key)]
    else [.registerInsert req]

/-- The active children of a session fail, and the registration is refused. -/
def registerFailChildren (w : World) (r : Reading) (key : String) (count : ℕ) : List Act :=
  failEach ("child fanout exceeded (" ++ toString count ++ " of " ++
    toString cfg.maxChildrenPerParent ++ ")")
      ((w.walkTasks r).filter fun t => t.parentSessionKey = some key && t.status.isActive) ++
    [.refuse (.childFanoutExceeded key count cfg.maxChildrenPerParent)]

def enterTask : World :=
  let entered := (w.setTasks (w.supervisor.tasks.insert t.id t)).report (.registered t.id)
  { entered with process := { entered.process with nextId := t.id + 1 } }

/-- The parent is looked up under the lock that the task is entered under; where the first row has
to be durable it is appended there. -/
def registerInsert (req : Registration) : World × List Act :=
  let task := newTask w.process.nextId w.process.clock req
  match parentEnded w r req with
  | some error => (w, [.refuse error])
  | none =>
    if req.requirePersistence then
      if w.supervisor.persistent && !r.appends then
        (w, [.refuse (.workspacePersistFailed req.toolCallId)])
      else (enterTask (w.persistSnapshot r task) task, [])
    else (enterTask w task, [.persistById task.id])

/-! ### Persistence -/

/-- The restored rows that count more than the copies there are. -/
def restoredWon (tasks restored : Table TaskId BackgroundTask) : List TaskId :=
  (restored.values.filter fun task =>
    (tasks.get task.id).all fun existing => taskSnapshotAdvances task existing).map (·.id)

/-- An orphan: its runtime state is not terminal, its worker is not live, and neither is that of the
pipeline it is a node of. -/
def isOrphan : Bool :=
  let liveToolCallIds := (w.supervisor.tasks.values.filter fun t =>
    t.toolCallId ≠ "" && w.isTaskLive t.id).map (·.toolCallId)
  !isTerminalRuntimeState t.runtimeState && !w.isTaskLive t.id &&
    !(t.isPipelineNode && liveToolCallIds.contains t.toolCallId)

/-- The verdict on an orphan: a handed-off peer can be taken up again. -/
def sweepAct : Act :=
  if t.toolName = "peer_handoff" then .mark t.id (.parked "orphaned across restart")
  else .mark t.id (.failed "orphaned across restart" false)

/-- The sweep: every orphan, then the pipeline nodes of those that are not nodes themselves. -/
def sweepActs : List Act :=
  let orphans := (w.walkTasks r).filter (isOrphan w)
  let parents := ((orphans.filter fun t => t.toolCallId ≠ "" && !t.isPipelineNode).map
    (·.toolCallId)).eraseDups
  orphans.map sweepAct ++
    parents.map fun toolCallId => .markDescendantsFailed toolCallId
      "parent task orphaned across restart"

/-- The copies that the ledger does not have are appended before the sweep. -/
def snapshotActs (restoredWon : List TaskId) : List Act :=
  ((w.walkTasks r).filter fun t => !restoredWon.contains t.id).map .persist ++ [.sweepOrphans]

/-- **A critical section**: the state after it, and the sections it leaves to its thread; a panic
leaves none. -/
def perform (r : Reading) (w : World) : Act → World × Option (List Act)
  | .mark id m => ((markSection w id m).1, some (markSection w id m).2)
  | .persist row => (w.persistSnapshot r row, some [])
  | .persistById id => (w, some ((w.getTask id).toList.map .persist))
  | .applyHarnessEvent id event => (w, some ((w.getTask id).elim [] (harnessActs cfg id event)))
  | .reapStuckTasks now stuckTimeout =>
    (w, some (failEach
      ("orphaned: no progress for " ++ cfg.debugDuration stuckTimeout ++ " (heartbeat timeout)")
      (stuckTasks w r now stuckTimeout)))
  | .markDescendantsFailed parentToolCallId reason =>
    (w, some (if parentToolCallId = "" then []
      else failEach reason (activeDescendants w r parentToolCallId)))
  | .markSynthAckEmitted toolCallId =>
    ((markSynthAckEmitted w r toolCallId).1, some (markSynthAckEmitted w r toolCallId).2)
  | .notifyFailure task => notifyFailure cfg w task
  | .dispatchFailureSignal signal => ((emitSignal w signal).1, some (emitSignal w signal).2)
  | .invokeFailureCallback signal => (w.report (.signalled signal), some [])
  | .drainPendingFailure id => (w.setBooks (w.supervisor.ackAndPending.removePending id), some [])
  | .markLive id => (w.markTaskLive id, some [])
  | .clearLive id => (w.clearTaskLive id, some [])
  | .guardDrop id => (w.clearTaskLive id, some [.guardCheck id])
  | .guardCheck id =>
    (w, some (if (w.getTask id).any (·.status.isActive) then
      [.mark id (.failed "worker dropped before reaching terminal state" false)] else []))
  | .register req => (w, some (registerStart w r req))
  | .registerPoisoned key req =>
    (w, some (if w.supervisor.poisonedParents.contains key then [.registerRefuse key]
      else [.registerCount key req]))
  | .registerRefuse key =>
    (w.report (.refused (.childFanoutExceeded key (liveChildren w key) cfg.maxChildrenPerParent)),
      some [])
  | .registerCount key req => (w, some (registerCount cfg w r key req))
  | .registerPoison key count =>
    ({ w with
      supervisor := { w.supervisor with poisonedParents := key :: w.supervisor.poisonedParents } },
      some [.registerFailChildren key count])
  | .registerFailChildren key count => (w, some (registerFailChildren cfg w r key count))
  | .registerInsert req => ((registerInsert w r req).1, some (registerInsert w r req).2)
  | .refuse error => (w.report (.refused error), some [])
  | .enablePersistence =>
    (w, some (if w.supervisor.persistent then []
      else [.enableMerge (loadPersistedTasks w.process.ledger)]))
  | .enableMerge restored =>
    (w.setTasks (restored.values.foldl mergeTask w.supervisor.tasks),
      some [.enableInstall (restoredWon w.supervisor.tasks restored)])
  | .enableInstall restoredWon =>
    ({ w with supervisor := { w.supervisor with persistent := true } },
      some [.enableSnapshot restoredWon])
  | .enableSnapshot restoredWon => (w, some (snapshotActs w r restoredWon))
  | .sweepOrphans => (w, some (sweepActs w r))
  | .refreshFromPersistence =>
    (w, some (if w.supervisor.persistent then [.refreshMerge (loadPersistedTasks w.process.ledger)]
      else []))
  | .refreshMerge restored =>
    (w.setTasks (Tasks.refreshFromPersistence w.supervisor.tasks restored), some [])
  | .refreshTaskFromPersistence id =>
    (w, some (if w.supervisor.persistent then
      [.refreshTaskMerge ((loadPersistedTasks w.process.ledger).get id)] else []))
  | .refreshTaskMerge restored =>
    (w.setTasks (Tasks.refreshTaskFromPersistence w.supervisor.tasks restored), some [])

/-- A section, at its time. -/
def exec (r : Reading) (w : World) (a : Act) : World × Option (List Act) :=
  perform cfg r (w.advance r.tick) a

/-! ## Calls -/

/-- The calls of a supervisor, and of the guards and leases of its tasks. -/
inductive Call
  | mark (id : TaskId) (m : Mark)
  | applyHarnessEvent (id : TaskId) (event : HarnessEventPayload)
  | reapStuckTasks (now stuckTimeout : ℕ)
  | markDescendantsFailed (parentToolCallId reason : String)
  | markSynthAckEmitted (toolCallId : String)
  | guardNew (id : TaskId)
  | guardDrop (id : TaskId)
  | leaseNew (id : TaskId)
  | leaseDrop (id : TaskId)
  | register (req : Registration)
  | enablePersistence
  | refreshFromPersistence
  | refreshTaskFromPersistence (id : TaskId)

/-- The section a call begins with. -/
def Call.first : Call → Act
  | .mark id m => .mark id m
  | .applyHarnessEvent id event => .applyHarnessEvent id event
  | .reapStuckTasks now stuckTimeout => .reapStuckTasks now stuckTimeout
  | .markDescendantsFailed parentToolCallId reason => .markDescendantsFailed parentToolCallId reason
  | .markSynthAckEmitted toolCallId => .markSynthAckEmitted toolCallId
  | .guardNew id => .markLive id
  | .guardDrop id => .guardDrop id
  | .leaseNew id => .markLive id
  | .leaseDrop id => .clearLive id
  | .register req => .register req
  | .enablePersistence => .enablePersistence
  | .refreshFromPersistence => .refreshFromPersistence
  | .refreshTaskFromPersistence id => .refreshTaskFromPersistence id

def Call.start (c : Call) : List Act := [c.first]

def step : Pool World Act → Move Call Reading → Pool World Act :=
  Pool.step Call.start (exec cfg)

/-- A new supervisor in a process in which nothing has happened yet. -/
def initial : Pool World Act := ⟨⟨Supervisor.new, ⟨[], [], 0, 0⟩⟩, []⟩

/-- A configuration with some bound on the children of a session. -/
def configOf (cap : ℕ) (hcap : 0 < cap) : Config :=
  ⟨dottedLowercase, cap, hcap, fun _ _ => "", fun _ => ""⟩

/-- A reading by which the clock moves on, the ledger can be written and maps are walked in
order. -/
def Reading.after (tick : ℕ) : Reading := ⟨tick, true, id, fun _ => .refl _, id, fun _ => .refl _⟩

def detached (toolCallId : String) : Registration :=
  ⟨"fm_tts", toolCallId, none, none, none, none, false⟩

end Octos.Tasks
