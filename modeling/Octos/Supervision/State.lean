import Octos.Supervision.Records
import Octos.Base.Runs

/-!
# Folding the ledger into a state

`octos-cli/src/autonomy/supervisor_store.rs`: how each event of the ledger changes the supervisor's
state. A row whose event id was seen before only moves the sequence. The three continuation events
update the record at the key of the group and the continuation; no other event touches a
continuation.
-/

namespace Octos.Supervision

namespace SupervisorState

variable (s : SupervisorState)

/-! ## Groups -/

variable (groupId : String)

/-- `ensure_group`, and a change of the record it returns. -/
def modifyGroup (observedAtMs : ℕ) (f : GroupRecord → GroupRecord) : SupervisorState :=
  { s with
    groups := s.groups.insert groupId
      (f ((s.groups.get groupId).getD (.new groupId observedAtMs))) }

def ensureGroup (observedAtMs : ℕ) : SupervisorState :=
  s.modifyGroup groupId observedAtMs id

def pushUnique (items : List String) (item : String) : List String :=
  if items.contains item then items else items ++ [item]

variable (groupId childId : String)

/-- A child that the group did not know reopens a group that was closed because all its
children were. -/
def rememberChild (observedAtMs : ℕ) : SupervisorState :=
  s.modifyGroup groupId observedAtMs fun group =>
    let remembered := { group with childIds := pushUnique group.childIds childId }
    if !group.childIds.contains childId && isAutoGroupTerminal group.terminal then
      { remembered with
        terminal := none
        status := .running
        updatedAtMs := max group.updatedAtMs observedAtMs }
    else if group.terminal.isNone then
      { remembered with status := .running, updatedAtMs := max group.updatedAtMs observedAtMs }
    else remembered

/-- The latest end of the children and the kind of end of the group, if all of them have ended. -/
def childrenTerminal (childIds : List String) : Option (ℕ × TerminalKind) :=
  childIds.foldlM
    (fun acc childId => do
      let child ← s.children.get (childKey groupId childId)
      let terminal ← child.terminal
      let kind := match terminal.kind with
        | .failed => .failed
        | .cancelled => if acc.2 = .failed then acc.2 else .cancelled
        | .completed => acc.2
      return (max acc.1 terminal.finishedAtMs, kind))
    (0, .completed)

def recomputeGroupTerminal : SupervisorState :=
  match s.groups.get groupId with
  | none => s
  | some group =>
    if group.childIds.isEmpty ||
      (group.terminal.isSome && !isAutoGroupTerminal group.terminal) then s
    else match s.childrenTerminal groupId group.childIds with
      | none => s
      | some (latestFinished, terminalKind) =>
        { s with
          groups := s.groups.insert groupId
            { group with
              status := groupStatusForTerminal terminalKind
              updatedAtMs := max group.updatedAtMs latestFinished
              terminal := some
                ⟨terminalKind, latestFinished, none, none, some autoGroupTerminalMessage,
                  .empty⟩ } }

variable (group : GroupRecord)

def upsertGroup : SupervisorState :=
  match s.groups.get group.groupId with
  | none => { s with groups := s.groups.insert group.groupId group }
  | some existing =>
    let latest := if existing.updatedAtMs ≤ group.updatedAtMs then group else existing
    { s with
      groups := s.groups.insert group.groupId
        { latest with childIds := existing.childIds.foldl pushUnique latest.childIds } }

/-! ## Children and artifacts -/

variable (child : ChildRecord)

/-- An ended child is not reopened by a record without an end. -/
def upsertChild : SupervisorState :=
  let key := childKey child.groupId child.childId
  let s := (s.ensureGroup child.groupId child.startedAtMs).rememberChild child.groupId child.childId
    child.startedAtMs
  match s.children.get key with
  | none => { s with children := s.children.insert key child }
  | some existing =>
    let child :=
      if existing.terminal.isSome && child.terminal.isNone then
        { child with terminal := existing.terminal, status := existing.status }
      else child
    if existing.updatedAtMs ≤ child.updatedAtMs then
      { s with children := s.children.insert key child }
    else s

def applyHeartbeat (ping : HeartbeatPing) : SupervisorState :=
  let s := (s.ensureGroup ping.groupId ping.observedAtMs).rememberChild ping.groupId ping.childId
    ping.observedAtMs
  let key := childKey ping.groupId ping.childId
  let child := (s.children.get key).getD (.new ping.groupId ping.childId ping.observedAtMs)
  let isLatest := child.lastHeartbeat.all fun existing =>
    decide (existing.observedAtMs ≤ ping.observedAtMs)
  let child :=
    if isLatest then
      { child with
        updatedAtMs := max child.updatedAtMs ping.observedAtMs
        lastHeartbeat := some ping
        status := if child.terminal.isNone then .running else child.status }
    else child
  { s with children := s.children.insert key child }

def applyChildTerminal (terminal : TerminalState) (recordedAtMs : ℕ) : SupervisorState :=
  let s := (s.ensureGroup groupId recordedAtMs).rememberChild groupId childId recordedAtMs
  let key := childKey groupId childId
  let child := (s.children.get key).getD (.new groupId childId recordedAtMs)
  let child :=
    if shouldReplaceTerminal child.terminal terminal then
      { child with
        updatedAtMs := max child.updatedAtMs terminal.finishedAtMs
        status := childStatusForTerminal terminal.kind
        terminal := some terminal }
    else child
  { s with children := s.children.insert key child }.recomputeGroupTerminal groupId

def upsertArtifact (artifact : ArtifactRecord) : SupervisorState :=
  let s := s.ensureGroup artifact.groupId artifact.updatedAtMs
  let key := artifactKey artifact.groupId artifact.artifactId
  let isNewer := (s.artifacts.get key).all fun existing =>
    decide (existing.version < artifact.version) ||
      (decide (artifact.version = existing.version) &&
        decide (existing.updatedAtMs ≤ artifact.updatedAtMs))
  if isNewer then { s with artifacts := s.artifacts.insert key artifact } else s

/-! ## Admissions -/

def admissions (metadata : Metadata) (key : String) : List String :=
  match (metadata.get key).bind Json.asStr? with
  | none => []
  | some text => if text.isEmpty then [] else text.splitOn ","

/-- An entry is added to the comma list at a key, unless `known` finds it there. -/
def recordAdmission (metadata : Metadata) (key entry : String) (known : List String → Bool) :
    Metadata :=
  let list := admissions metadata key
  if known list then metadata
  else metadata.insert key (.str (",".intercalate (list ++ [entry])))

/-- The group of an admission, over what the store knows of it. -/
def admittedGroup (existing : Option GroupRecord) (group : GroupRecord) : GroupRecord :=
  match existing with
  | none => { group with childIds := [] }
  | some existing =>
    { group with
      createdAtMs := min group.createdAtMs existing.createdAtMs
      childIds := existing.childIds
      supervisorId := group.supervisorId.or existing.supervisorId
      parentSessionId := group.parentSessionId.or existing.parentSessionId
      parentTurnId := group.parentTurnId.or existing.parentTurnId
      objective := group.objective.or existing.objective
      metadata := Metadata.extend group.metadata existing.metadata
      terminal := if group.terminal.isNone then existing.terminal else group.terminal
      status := if group.terminal.isNone then existing.status else group.status }

def orNull (value : Option Json) : Json := value.getD .null

/-- What is kept of a child's earlier workspace. -/
def workspaceObservation (existing : ChildRecord) : Json :=
  .obj
    [("backend_kind", orNull (existing.metadata.get "backend_kind")),
      ("label", orNull (existing.label.map .str)),
      ("nickname", orNull (existing.metadata.get "nickname")),
      ("role", orNull (existing.metadata.get "role")),
      ("workspace_path", orNull (existing.workspacePath.map .str)),
      ("workspace_scope", orNull (existing.metadata.get "workspace_scope"))]

/-- The child was seen in another workspace before. -/
def workspaceChanged (existing child : ChildRecord) : Bool :=
  existing.workspacePath != child.workspacePath ||
    (child.metadata.get "workspace_scope").any fun scope =>
      orNull (existing.metadata.get "workspace_scope") != scope

/-- The metadata of an admitted child: its own over what the store knows, with the workspaces it was
seen in. -/
def admittedMetadata (existing child : ChildRecord) : Metadata :=
  let history := ((existing.metadata.get "workspace_history").bind Json.asArray?).getD []
  let observation := workspaceObservation existing
  let metadata := Metadata.extend existing.metadata (child.metadata.erase "workspace_history")
  if workspaceChanged existing child then
    metadata.insert "workspace_history"
      (.arr (if history.contains observation then history else history ++ [observation]))
  else metadata

/-- The child of an admission, over what the store knows of it. -/
def admittedChild (existing : Option ChildRecord) (child : ChildRecord) : ChildRecord :=
  match existing with
  | none => child
  | some existing =>
    { child with
      startedAtMs := min child.startedAtMs existing.startedAtMs
      lastHeartbeat := child.lastHeartbeat.or existing.lastHeartbeat
      metadata := admittedMetadata existing child }

/-- The cohort of an admission, in the metadata of the group. -/
def recordCohort (observedAtMs : ℕ) : Option CohortEpochAdmission → SupervisorState
  | none => s
  | some cohort =>
    let entry := childId ++ ":" ++ toString cohort.epoch
    s.modifyGroup groupId observedAtMs fun group =>
      { group with
        metadata := recordAdmission group.metadata ("admissions#" ++ toString cohort.cwdHash) entry
          fun list => list.contains entry
        updatedAtMs := max group.updatedAtMs observedAtMs }

def applyAgentAdmitted (cohort : Option CohortEpochAdmission) : SupervisorState :=
  let groupId := group.groupId
  let observedAtMs := max group.updatedAtMs child.updatedAtMs
  let s := s.upsertGroup (admittedGroup (s.groups.get groupId) group)
  -- The declared children come after the merge, so that a new one still reopens the group.
  let s := group.childIds.foldl (fun s childId => s.rememberChild groupId childId observedAtMs) s
  let s := s.upsertChild (admittedChild (s.children.get (childKey groupId child.childId)) child)
  (s.recordCohort groupId child.childId observedAtMs cohort).recomputeGroupTerminal groupId

/-! ## Continuations -/

/-- A payload takes the place of one of a lower attempt, or of one whose status is
not ahead of its own. -/
def upsertContinuation (continuation : ContinuationRecord) : SupervisorState :=
  let s := s.ensureGroup continuation.groupId continuation.queuedAtMs
  let key := continuationKey continuation.groupId continuation.continuationId
  match s.continuations.get key with
  | none => { s with continuations := s.continuations.insert key continuation }
  | some existing =>
    if existing.attempt < continuation.attempt ∨
      existing.status.rank ≤ continuation.status.rank then
      { s with
        continuations := s.continuations.insert key (mergeContinuation existing continuation) }
    else s

/-- `continuation_lifecycle_attempt_matches`: the record is not of a later attempt than the event.
Events without an attempt always match. -/
def lifecycleAttemptMatches (record : Option ContinuationRecord) (incomingAttempt : ℕ) : Bool :=
  record.all fun record => incomingAttempt == 0 || decide (record.attempt ≤ incomingAttempt)

def startRecord (record : ContinuationRecord) (startedAtMs : ℕ) : ContinuationRecord :=
  { record with
    status := if record.status = .completed then .completed else .started
    startedAtMs :=
      some (record.startedAtMs.elim startedAtMs fun existing => min existing startedAtMs) }

variable (groupId continuationId : String)

def applyContinuationStarted (startedAtMs attempt : ℕ) : SupervisorState :=
  let s := s.ensureGroup groupId startedAtMs
  let key := continuationKey groupId continuationId
  if lifecycleAttemptMatches (s.continuations.get key) attempt then
    let record := (s.continuations.get key).getD (.unqueued groupId continuationId startedAtMs)
    { s with continuations := s.continuations.insert key (startRecord record startedAtMs) }
  else s

/-- A completion, on the record it is about. -/
def completeRecord (record : ContinuationRecord) (completedAtMs : ℕ) (result : Option String) :
    ContinuationRecord :=
  { record with
    status := .completed
    completedAtMs :=
      some (record.completedAtMs.elim completedAtMs fun existing => max existing completedAtMs)
    result := result.or record.result }

def applyContinuationCompleted (completedAtMs : ℕ) (result : Option String) (attempt : ℕ) :
    SupervisorState :=
  let s := s.ensureGroup groupId completedAtMs
  let key := continuationKey groupId continuationId
  if lifecycleAttemptMatches (s.continuations.get key) attempt then
    let record := (s.continuations.get key).getD (.unqueued groupId continuationId completedAtMs)
    { s with
      continuations := s.continuations.insert key (completeRecord record completedAtMs result) }
  else s

/-! ## Events and rows -/

def applyEvent (event : Event) (recordedAtMs : ℕ) : SupervisorState :=
  match event with
  | .groupRegistered group => s.upsertGroup group
  | .groupTerminal groupId terminal =>
    s.modifyGroup groupId recordedAtMs fun group =>
      if shouldReplaceTerminal group.terminal terminal then
        { group with
          status := groupStatusForTerminal terminal.kind
          updatedAtMs := max group.updatedAtMs terminal.finishedAtMs
          terminal := some terminal }
      else group
  | .childStarted child => s.upsertChild child
  | .agentAdmitted group child cohort => s.applyAgentAdmitted group child cohort
  | .heartbeat ping => s.applyHeartbeat ping
  | .childTerminal groupId childId terminal =>
    s.applyChildTerminal groupId childId terminal recordedAtMs
  | .artifactUpdated artifact => s.upsertArtifact artifact
  | .continuationQueued continuation => s.upsertContinuation continuation
  | .continuationStarted groupId continuationId startedAtMs attempt =>
    s.applyContinuationStarted groupId continuationId startedAtMs attempt
  | .continuationCompleted groupId continuationId completedAtMs result attempt =>
    s.applyContinuationCompleted groupId continuationId completedAtMs result attempt
  | .groupEpochBumped groupId newEpoch observedAtMs cwdHash =>
    s.modifyGroup groupId observedAtMs fun group =>
      let key := "join_epoch#" ++ toString cwdHash
      let existing := ((group.metadata.get key).bind Json.asNum?).getD 0
      { group with
        metadata :=
          if existing < newEpoch then group.metadata.insert key (.num newEpoch) else group.metadata
        updatedAtMs := max group.updatedAtMs observedAtMs }
  | .cohortAdmission groupId cwdHash childId newEpoch observedAtMs =>
    s.modifyGroup groupId observedAtMs fun group =>
      { group with
        metadata := recordAdmission group.metadata ("admissions#" ++ toString cwdHash)
          (childId ++ ":" ++ toString newEpoch)
          fun list => list.any fun entry => (entry.splitOn ":").head? == some childId
        updatedAtMs := max group.updatedAtMs observedAtMs }

/-- Whether the event of a row is applied: an event id is applied once, rows without one always. -/
def accepts (row : LedgerRow) : Bool :=
  row.eventId.isEmpty || !s.appliedEventIds.contains row.eventId

/-- What it returns is `accepts`. -/
def acceptLedgerRow (row : LedgerRow) : SupervisorState :=
  { s with
    lastSequence := max s.lastSequence row.sequence
    appliedEventIds :=
      if row.eventId.isEmpty then s.appliedEventIds else pushUnique s.appliedEventIds row.eventId }

def applyLedgerRow (row : LedgerRow) : SupervisorState :=
  if s.accepts row then (s.acceptLedgerRow row).applyEvent row.event row.recordedAtMs
  else s.acceptLedgerRow row

/-! ## What an event leaves alone -/

/-- From `s` to `s'` only groups, children and artifacts changed. -/
structure Frame (s s' : SupervisorState) : Prop where
  continuations : s'.continuations = s.continuations
  lastSequence : s'.lastSequence = s.lastSequence

theorem Frame.refl : Frame s s := ⟨rfl, rfl⟩

theorem Frame.trans {s s' s'' : SupervisorState} (h : Frame s s') (h' : Frame s' s'') :
    Frame s s'' :=
  ⟨h'.continuations.trans h.continuations, h'.lastSequence.trans h.lastSequence⟩

variable (observedAtMs : ℕ)

theorem frame_modifyGroup (f : GroupRecord → GroupRecord) :
    Frame s (s.modifyGroup groupId observedAtMs f) := ⟨rfl, rfl⟩

theorem frame_upsertGroup : Frame s (s.upsertGroup group) := by
  rw [upsertGroup]
  split <;> exact ⟨rfl, rfl⟩

theorem frame_recomputeGroupTerminal : Frame s (s.recomputeGroupTerminal groupId) := by
  rw [recomputeGroupTerminal]
  split
  · exact Frame.refl s
  · split_ifs
    · exact Frame.refl s
    · split <;> exact ⟨rfl, rfl⟩

theorem frame_upsertChild : Frame s (s.upsertChild child) := by
  simp only [upsertChild]
  split
  · exact ⟨rfl, rfl⟩
  · split_ifs <;> exact ⟨rfl, rfl⟩

theorem frame_upsertArtifact (artifact : ArtifactRecord) : Frame s (s.upsertArtifact artifact) := by
  simp only [upsertArtifact]
  split_ifs <;> exact ⟨rfl, rfl⟩

theorem frame_applyHeartbeat (ping : HeartbeatPing) : Frame s (s.applyHeartbeat ping) := ⟨rfl, rfl⟩

theorem frame_applyChildTerminal (terminal : TerminalState) (recordedAtMs : ℕ) :
    Frame s (s.applyChildTerminal groupId childId terminal recordedAtMs) := by
  refine Frame.trans ?_ (frame_recomputeGroupTerminal _ groupId)
  exact ⟨rfl, rfl⟩

theorem frame_rememberChildren (childIds : List String) (observedAtMs : ℕ) :
    Frame s (childIds.foldl (fun s childId => s.rememberChild groupId childId observedAtMs) s) := by
  induction childIds generalizing s with
  | nil => exact Frame.refl s
  | cons _ _ ih => exact (frame_modifyGroup s groupId observedAtMs _).trans (ih _)

theorem frame_recordCohort (cohort : Option CohortEpochAdmission) :
    Frame s (s.recordCohort groupId childId observedAtMs cohort) := by
  cases cohort with
  | none => exact Frame.refl s
  | some cohort => exact ⟨rfl, rfl⟩

theorem frame_applyAgentAdmitted (cohort : Option CohortEpochAdmission) :
    Frame s (s.applyAgentAdmitted group child cohort) := by
  refine Frame.trans ?_ (frame_recomputeGroupTerminal _ group.groupId)
  refine Frame.trans ?_ (frame_recordCohort _ _ _ _ cohort)
  exact (frame_upsertGroup s _).trans
    ((frame_rememberChildren _ group.groupId group.childIds _).trans (frame_upsertChild ..))

/-! ## What an event does to a continuation -/

/-- What can become of the continuation at `key` by an event: it stays, it is queued or replaced by
a payload, or it is started or completed. -/
inductive ContinuationStep (key : String) (before : Option ContinuationRecord) :
    Event → Option ContinuationRecord → Prop
  | kept (event : Event) : ContinuationStep key before event before
  | queued (c : ContinuationRecord) (hkey : continuationKey c.groupId c.continuationId = key)
      (hnone : before = none) : ContinuationStep key before (.continuationQueued c) (some c)
  | merged (c existing : ContinuationRecord)
      (hkey : continuationKey c.groupId c.continuationId = key) (hsome : before = some existing)
      (heligible : existing.attempt < c.attempt ∨ existing.status.rank ≤ c.status.rank) :
      ContinuationStep key before (.continuationQueued c) (some (mergeContinuation existing c))
  | started (groupId continuationId : String) (startedAtMs attempt : ℕ)
      (hkey : continuationKey groupId continuationId = key)
      (hmatch : lifecycleAttemptMatches before attempt) :
      ContinuationStep key before (.continuationStarted groupId continuationId startedAtMs attempt)
        (some (startRecord (before.getD (.unqueued groupId continuationId startedAtMs))
          startedAtMs))
  | completed (groupId continuationId : String) (completedAtMs : ℕ) (result : Option String)
      (attempt : ℕ) (hkey : continuationKey groupId continuationId = key)
      (hmatch : lifecycleAttemptMatches before attempt) :
      ContinuationStep key before
        (.continuationCompleted groupId continuationId completedAtMs result attempt)
        (some (completeRecord (before.getD (.unqueued groupId continuationId completedAtMs))
          completedAtMs result))

theorem Frame.continuationStep {s s' : SupervisorState} (h : Frame s s') (key : String)
    (event : Event) :
    ContinuationStep key (s.continuations.get key) event (s'.continuations.get key) := by
  rw [h.continuations]
  exact .kept event

/-- A record that is written matters only at its own key. -/
theorem ContinuationStep.insert {s : SupervisorState} {written key : String} {event : Event}
    {r : ContinuationRecord}
    (h : written = key → ContinuationStep key (s.continuations.get key) event (some r)) :
    ContinuationStep key (s.continuations.get key) event
      ((s.continuations.insert written r).get key) := by
  by_cases hkey : written = key
  · rw [hkey, Table.get_insert_self]
    exact h hkey
  · rw [Table.get_insert_of_ne _ _ (Ne.symm hkey)]
    exact .kept _

theorem continuationStep_upsertContinuation (c : ContinuationRecord) (key : String) :
    ContinuationStep key (s.continuations.get key) (.continuationQueued c)
      ((s.upsertContinuation c).continuations.get key) := by
  dsimp only [upsertContinuation]
  split
  · rename_i hnone
    exact .insert fun hkey => .queued c hkey (hkey ▸ hnone)
  · rename_i existing hsome
    split_ifs with heligible
    · exact .insert fun hkey => .merged c existing hkey (hkey ▸ hsome) heligible
    · exact .kept _

theorem continuationStep_applyContinuationStarted (s : SupervisorState)
    (groupId continuationId : String) (startedAtMs attempt : ℕ) (key : String) :
    ContinuationStep key (s.continuations.get key)
      (.continuationStarted groupId continuationId startedAtMs attempt)
      ((s.applyContinuationStarted groupId continuationId startedAtMs attempt).continuations.get
        key) := by
  dsimp only [applyContinuationStarted]
  split_ifs with hmatch
  · refine .insert ?_
    rintro rfl
    exact .started groupId continuationId startedAtMs attempt rfl hmatch
  · exact .kept _

theorem continuationStep_applyContinuationCompleted (completedAtMs : ℕ) (result : Option String)
    (attempt : ℕ) (key : String) :
    ContinuationStep key (s.continuations.get key)
      (.continuationCompleted groupId continuationId completedAtMs result attempt)
      ((s.applyContinuationCompleted groupId continuationId completedAtMs result
        attempt).continuations.get key) := by
  dsimp only [applyContinuationCompleted]
  split_ifs with hmatch
  · refine .insert ?_
    rintro rfl
    exact .completed groupId continuationId completedAtMs result attempt rfl hmatch
  · exact .kept _

variable (event : Event)

/-- **What an event does to the continuation at a key.** -/
theorem continuationStep_applyEvent (recordedAtMs : ℕ) (key : String) :
    ContinuationStep key (s.continuations.get key) event
      ((s.applyEvent event recordedAtMs).continuations.get key) := by
  cases event with
  | groupRegistered group => exact (frame_upsertGroup s group).continuationStep key _
  | groupTerminal | groupEpochBumped | cohortAdmission =>
    exact (frame_modifyGroup s ..).continuationStep key _
  | childStarted child => exact (frame_upsertChild s child).continuationStep key _
  | agentAdmitted group child cohort =>
    exact (frame_applyAgentAdmitted s group child cohort).continuationStep key _
  | heartbeat ping => exact (frame_applyHeartbeat s ping).continuationStep key _
  | childTerminal => exact (frame_applyChildTerminal s ..).continuationStep key _
  | artifactUpdated artifact => exact (frame_upsertArtifact s artifact).continuationStep key _
  | continuationQueued c => exact continuationStep_upsertContinuation s c key
  | continuationStarted => exact continuationStep_applyContinuationStarted s _ _ _ _ key
  | continuationCompleted => exact continuationStep_applyContinuationCompleted s _ _ _ _ _ key

variable {row : LedgerRow}

theorem continuationStep_applyLedgerRow {s : SupervisorState} (h : s.accepts row) (key : String) :
    ContinuationStep key (s.continuations.get key) row.event
      ((s.applyLedgerRow row).continuations.get key) := by
  rw [applyLedgerRow, if_pos h]
  exact continuationStep_applyEvent (s.acceptLedgerRow row) row.event row.recordedAtMs key

theorem continuations_applyLedgerRow_of_not_accepts {s : SupervisorState}
    (h : ¬s.accepts row) : (s.applyLedgerRow row).continuations = s.continuations := by
  rw [applyLedgerRow, if_neg h]
  rfl

/-! ## The sequence -/

theorem lastSequence_applyEvent (recordedAtMs : ℕ) :
    (s.applyEvent event recordedAtMs).lastSequence = s.lastSequence := by
  cases event with
  | groupRegistered group => exact (frame_upsertGroup s group).lastSequence
  | childStarted child => exact (frame_upsertChild s child).lastSequence
  | agentAdmitted group child cohort =>
    exact (frame_applyAgentAdmitted s group child cohort).lastSequence
  | childTerminal => exact (frame_applyChildTerminal s ..).lastSequence
  | artifactUpdated artifact => exact (frame_upsertArtifact s artifact).lastSequence
  | continuationQueued c =>
    simp only [applyEvent, upsertContinuation]
    split
    · rfl
    · split_ifs <;> rfl
  | continuationStarted =>
    simp only [applyEvent, applyContinuationStarted]
    split_ifs <;> rfl
  | continuationCompleted =>
    simp only [applyEvent, applyContinuationCompleted]
    split_ifs <;> rfl
  | groupTerminal | heartbeat | groupEpochBumped | cohortAdmission => rfl

@[simp] theorem lastSequence_applyLedgerRow (row : LedgerRow) :
    (s.applyLedgerRow row).lastSequence = max s.lastSequence row.sequence := by
  rw [applyLedgerRow]
  split_ifs
  · exact lastSequence_applyEvent (s.acceptLedgerRow row) row.event row.recordedAtMs
  · rfl

end SupervisorState

end Octos.Supervision
