import Octos.Fleet.Graph

/-!
# Plan edits

The plan-management layer over the store: creating a fleet from a task list, and applying an edit
to its plan. `Fleet::apply_edit` is not one transaction: it reads a snapshot, decides which store
call to make, and makes it later, when the store may have moved on. The model keeps the two parts
apart: `prepareEdit` is the decision on the snapshot, and `applyEdit` the whole call
without anything in between.
-/

namespace Octos.Fleet

open List

/-! ## Inputs -/

/-- The author-facing form of a task. -/
structure TaskSpec where
  taskId : String
  title : String
  detail : String
  deps : List String
  acceptance : List AcceptanceCriterion
  grant : WorkerGrant

def TaskSpec.toTask (s : TaskSpec) : PlanTask :=
  { taskId := s.taskId, title := s.title, detail := s.detail, deps := s.deps,
    acceptance := s.acceptance, grant := s.grant }

inductive PlanEdit
  | addTask (spec : TaskSpec)
  | removeTask (taskId : String)
  | retitle (taskId title detail : String)
  | retargetDeps (taskId : String) (deps : List String)
  | splitTask (taskId : String) (into : List TaskSpec)
  | setGrant (taskId : String) (grant : WorkerGrant)

/-- The errors of the layer: those of the store, those of the task graph, and its own. -/
inductive FleetError
  | store (e : StoreError)
  | graph (e : PlanGraphError)
  | editFleetNotFound (fleetId : String)
  | editNoPlan (fleetId : String)
  | fleetNotFound (fleetId : String)
  | planNotFound (fleetId : String)
  deriving DecidableEq

/-! ## Editing a task list -/

/-- Rewrite the task with the given id; an unknown one is rejected. -/
def editTask (tasks : List PlanTask) (taskId : String) (f : PlanTask → PlanTask) (note : String) :
    Except PlanGraphError (List PlanTask × String) :=
  if tasks.any (·.taskId = taskId) then .ok (updateTask taskId f tasks, note)
  else .error (.unknownTask taskId)

/-- Apply an edit to the task list, with a note for the decision log. -/
def applyEditToTasks (tasks : List PlanTask) :
    PlanEdit → Except PlanGraphError (List PlanTask × String)
  | .addTask spec =>
    if tasks.any (·.taskId = spec.taskId) then .error (.duplicateAdd spec.taskId)
    else .ok (tasks ++ [spec.toTask], s!"add task {spec.taskId}")
  | .removeTask id =>
    let kept := tasks.filter (·.taskId ≠ id)
    if kept.length = tasks.length then .error (.unknownTask id)
    else .ok (kept, s!"remove task {id}")
  | .retitle taskId title detail =>
    editTask tasks taskId (fun t => { t with title, detail }) s!"retitle task {taskId}"
  | .retargetDeps taskId deps =>
    editTask tasks taskId (fun t => { t with deps }) s!"retarget deps of task {taskId}"
  | .setGrant taskId grant =>
    editTask tasks taskId (fun t => { t with grant }) s!"set grant of task {taskId}"
  | .splitTask taskId into =>
    if into.isEmpty then .error (.emptySplit taskId)
    else match tasks.findIdx? (·.taskId = taskId) with
    | none => .error (.unknownTask taskId)
    | some pos =>
      match into.find? fun sub => (taskIds tasks).contains sub.taskId with
      | some sub => .error (.splitIdReuse sub.taskId)
      | none =>
        .ok (tasks.take pos ++ into.map TaskSpec.toTask ++ tasks.drop (pos + 1),
          s!"split task {taskId}")

/-! ## Creating a fleet -/

variable (s : FleetKernelStore) (fleetId : String)

/-- Best-effort append to the decision log: a failure is dropped. -/
def note (kind : DecisionKind) (text : String) (nowMs : UInt64) : FleetKernelStore :=
  Op.exec s (.appendDecision fleetId "keeper" kind text nowMs)

/-- The store call of a creation, once its whole task graph is validated. -/
def genesis (fleetId controllerSessionKey : String) (controllerWorkspaceRoot : Option String)
    (controllerWorkspaceHasRuntimeHint : Option Bool) (profileId : String) (budget : FleetBudget)
    (objective : String) (tasks : List TaskSpec) (nowMs : UInt64) : Except PlanGraphError Op := do
  let tasks := tasks.map TaskSpec.toTask
  validateGraph tasks
  return .createFleetWithPlan controllerSessionKey controllerWorkspaceRoot
    controllerWorkspaceHasRuntimeHint profileId budget.tokenBudget budget.hard
    { schemaVersion, fleetId, revision := 0, objective, tasks } nowMs

/-- Create a fleet with its plan and one child per task, and note it in the decision log. -/
def create (fleetId controllerSessionKey : String) (controllerWorkspaceRoot : Option String)
    (controllerWorkspaceHasRuntimeHint : Option Bool) (profileId : String) (budget : FleetBudget)
    (objective : String) (tasks : List TaskSpec) (nowMs : UInt64) :
    Except FleetError FleetKernelStore := do
  let op ← (genesis fleetId controllerSessionKey controllerWorkspaceRoot
    controllerWorkspaceHasRuntimeHint profileId budget objective tasks nowMs).mapError .graph
  let s' ← (op.perform s).mapError .store
  return note s' fleetId .plan s!"created fleet with {tasks.length} task(s)" nowMs

/-! ## Editing the plan of a fleet -/

/-- The store call an edit decides on. -/
inductive PlanCall
  | retitleTask (taskId title detail : String)
  | setTaskGrant (taskId : String) (grant : WorkerGrant)
  | replan (newPlan : DurablePlan)
  deriving DecidableEq

def PlanCall.toOp (expectedRevision nowMs : UInt64) : PlanCall → Op
  | .retitleTask taskId title detail => .retitleTask fleetId expectedRevision taskId title detail
  | .setTaskGrant taskId grant => .setTaskGrant fleetId expectedRevision taskId grant nowMs
  | .replan newPlan => .replan fleetId expectedRevision newPlan nowMs

def PlanCall.transact (expectedRevision nowMs : UInt64) :
    PlanCall → Except StoreError (Committed PlanMutateOutcome)
  | .retitleTask taskId title detail => s.retitleTask fleetId expectedRevision taskId title detail
  | .setTaskGrant taskId grant => s.setTaskGrant fleetId expectedRevision taskId grant nowMs
  | .replan newPlan => s.replan fleetId expectedRevision newPlan nowMs

/-- What an edit decides on its snapshot: it is stale, or it makes a store call, to be noted under
`kind`. -/
inductive EditDecision
  | stale (actual : UInt64)
  | call (call : PlanCall) (kind : DecisionKind) (text : String)
  deriving DecidableEq

/-- The task an edit may not retarget: its child is terminal, so its specification is frozen. -/
def frozenTarget (plan : DurablePlan) (children : List FleetChildRecord) :
    PlanEdit → Option String
  | .retargetDeps taskId _ =>
    if plan.tasks.any (·.taskId = taskId) &&
        (children.find? (·.childId = taskId)).any (·.status.isTerminal) then some taskId
    else none
  | _ => none

/-- A structural edit: build the new task list, validate it, and replan. -/
def prepareStructural (expectedRevision : UInt64) (plan : DurablePlan)
    (children : List FleetChildRecord) (edit : PlanEdit) : Except PlanGraphError EditDecision :=
  match frozenTarget plan children edit with
  | some taskId => .error (.retargetTerminalTask taskId)
  | none => do
    let (tasks, text) ← applyEditToTasks plan.tasks edit
    validateGraph tasks
    let newPlan : DurablePlan :=
      { schemaVersion, fleetId, revision := expectedRevision, objective := plan.objective, tasks }
    return .call (.replan newPlan) .replan text

/-- The edits of a title or a grant, which keep the children in place. -/
def prepareTargeted (plan : DurablePlan) (taskId : String) (call : PlanCall) (text : String) :
    Except PlanGraphError EditDecision :=
  if !plan.tasks.any (·.taskId = taskId) then .error (.unknownTask taskId)
  else .ok (.call call .note text)

/-- The decision of an edit on the snapshot it reads. -/
def prepareEdit (edit : PlanEdit) (expectedRevision : UInt64) : Except FleetError EditDecision := do
  let snap ← (s.loadSnapshot fleetId).mapError .store
  let snap ← orError snap (.editFleetNotFound fleetId)
  let plan ← orError snap.plan (.editNoPlan fleetId)
  if plan.revision ≠ expectedRevision then
    return .stale plan.revision
  else match edit with
  | .retitle taskId title detail =>
    (prepareTargeted plan taskId (.retitleTask taskId title detail)
      s!"retitle task {taskId}").mapError .graph
  | .setGrant taskId grant =>
    (prepareTargeted plan taskId (.setTaskGrant taskId grant)
      s!"grant widen + resume task {taskId}").mapError .graph
  | edit => (prepareStructural fleetId expectedRevision plan snap.children edit).mapError .graph

/-- Apply an edit: decide on a snapshot, make the store call, and note it if it took effect. -/
def applyEdit (edit : PlanEdit) (expectedRevision nowMs : UInt64) :
    Except FleetError (Committed PlanMutateOutcome) := do
  match ← prepareEdit s fleetId edit expectedRevision with
  | .stale actual => return (s, .revisionMismatch actual)
  | .call call kind text =>
    let (s', outcome) ← (call.transact s fleetId expectedRevision nowMs).mapError .store
    match outcome with
    | .rejectedTerminalDepChange taskId => .error (.graph (.retargetTerminalTask taskId))
    | .mutated revision => return (note s' fleetId kind text nowMs, .mutated revision)
    | outcome => return (s', outcome)

def isComplete : Except FleetError Bool := do
  let snap ← (s.loadSnapshot fleetId).mapError .store
  let snap ← orError snap (.fleetNotFound fleetId)
  let plan ← orError snap.plan (.planNotFound fleetId)
  return plan.tasks.all fun t =>
    (snap.children.find? (·.childId = t.taskId)).any (·.status = .succeeded)

/-! ## Histories -/

/-- The call does not build or rebuild the task graph of the fleet. -/
def Op.keepsGraph (f : String) : Op → Bool
  | .createFleet g _ _ _ _ _ _ | .addChild g _ _ _ | .replan g _ _ _ => g ≠ f
  | .createPlan p | .createFleetWithPlan _ _ _ _ _ _ p _ => p.fleetId ≠ f
  | _ => true

/-- Along the calls, the fleet is created by `create` and its task graph changed by `applyEdit`
only. An edit decides on a snapshot of some earlier state and calls the store now; anything may
have happened in between. -/
inductive PlannedThroughFleet (f : String) : List Op → Prop
  | nil : PlannedThroughFleet f []
  | create {ops : List Op} {op : Op} {key profileId objective : String} {root : Option String}
      {hint : Option Bool} {budget : FleetBudget} {tasks : List TaskSpec} {nowMs : UInt64} :
      PlannedThroughFleet f ops →
      genesis f key root hint profileId budget objective tasks nowMs = .ok op →
      PlannedThroughFleet f (ops ++ [op])
  | edit {ops earlier : List Op} {edit : PlanEdit} {expectedRevision nowMs : UInt64}
      {call : PlanCall} {kind : DecisionKind} {text : String} :
      PlannedThroughFleet f ops → earlier <+: ops →
      prepareEdit (run earlier) f edit expectedRevision = .ok (.call call kind text) →
      PlannedThroughFleet f (ops ++ [call.toOp f expectedRevision nowMs])
  | other {ops : List Op} {op : Op} :
      PlannedThroughFleet f ops → op.keepsGraph f = true → PlannedThroughFleet f (ops ++ [op])

variable {s s' : FleetKernelStore} {f : String}

theorem PlannedThroughFleet.append {ops ops' : List Op} (h : PlannedThroughFleet f ops)
    (hops : ∀ op ∈ ops', op.keepsGraph f = true) : PlannedThroughFleet f (ops ++ ops') := by
  induction ops' generalizing ops with
  | nil => rwa [append_nil]
  | cons op ops' ih =>
    obtain ⟨hop, hops⟩ := forall_mem_cons.mp hops
    rw [append_cons]
    exact ih (.other h hop) hops

variable {nowMs expectedRevision : UInt64}
  {key profileId objective : String} {root : Option String} {hint : Option Bool}
  {budget : FleetBudget} {tasks : List TaskSpec}

theorem genesis_eq_ok {op : Op}
    (h : genesis f key root hint profileId budget objective tasks nowMs = .ok op) :
    ∃ plan, op = .createFleetWithPlan key root hint profileId budget.tokenBudget budget.hard plan
      nowMs ∧ plan.fleetId = f ∧ validateGraph plan.tasks = .ok () := by
  obtain ⟨⟨⟩, hvalid, h⟩ := bind_eq_ok.mp h
  cases h
  exact ⟨_, rfl, rfl, hvalid⟩

variable {kind : DecisionKind} {edit : PlanEdit}
  {plan : DurablePlan} {call : PlanCall} {text : String}

theorem prepareStructural_eq_ok {children : List FleetChildRecord}
    (h : prepareStructural f expectedRevision plan children edit = .ok (.call call kind text)) :
    ∃ newPlan, call = .replan newPlan ∧ validateGraph newPlan.tasks = .ok () := by
  unfold prepareStructural at h
  cases hfrozen : frozenTarget plan children edit with
  | some =>
    rw [hfrozen] at h
    cases h
  | none =>
    rw [hfrozen] at h
    obtain ⟨⟨tasks, text⟩, -, h⟩ := bind_eq_ok.mp h
    obtain ⟨⟨⟩, hvalid, h⟩ := bind_eq_ok.mp h
    cases h
    exact ⟨_, rfl, hvalid⟩

theorem prepareTargeted_eq_ok {taskId text₀ text : String} {call₀ call : PlanCall}
    (h : prepareTargeted plan taskId call₀ text₀ = .ok (.call call kind text)) : call = call₀ := by
  unfold prepareTargeted at h
  split_ifs at h
  cases h
  rfl

/-- **A call of an edit that rebuilds the task graph carries a validated task list.** -/
theorem prepareEdit_call (h : prepareEdit s f edit expectedRevision = .ok (.call call kind text)) :
    (∃ newPlan, call = .replan newPlan ∧ validateGraph newPlan.tasks = .ok ()) ∨
      ∀ nowMs, (call.toOp f expectedRevision nowMs).keepsGraph f = true := by
  obtain ⟨_, -, h⟩ := bind_eq_ok.mp h
  obtain ⟨snap, -, h⟩ := bind_eq_ok.mp h
  obtain ⟨plan, -, h⟩ := bind_eq_ok.mp h
  split_ifs at h
  · cases h
  cases edit with
  | retitle | setGrant =>
    obtain rfl := prepareTargeted_eq_ok (mapError_eq_ok.mp h)
    exact .inr fun _ => rfl
  | _ => exact .inl (prepareStructural_eq_ok (mapError_eq_ok.mp h))

theorem PlanCall.perform_eq (call : PlanCall) (expectedRevision nowMs : UInt64) :
    (call.toOp f expectedRevision nowMs).perform s =
      Prod.fst <$> call.transact s f expectedRevision nowMs := by
  cases call <;> rfl

/-- A creation or an edit of the fleet that returns. -/
def LayerStep (f : String) (s s' : FleetKernelStore) : Prop :=
  (∃ key root hint profileId budget objective tasks nowMs,
    create s f key root hint profileId budget objective tasks nowMs = .ok s') ∨
  ∃ edit expectedRevision nowMs out, applyEdit s f edit expectedRevision nowMs = .ok (s', out)

theorem LayerStep.history {ops : List Op} (h : LayerStep f (run ops) s')
    (hist : PlannedThroughFleet f ops) :
    ∃ ops', s' = run (ops ++ ops') ∧ PlannedThroughFleet f (ops ++ ops') ∧
      ops'.filterMap Op.mints = [] := by
  -- A creation is the genesis and a note; an edit is a store call, with a note if it took effect.
  rcases h with ⟨_, _, _, _, _, _, tasks, nowMs, h⟩ | ⟨_, expectedRevision, nowMs, _, h⟩
  · obtain ⟨op, hop, h⟩ := bind_eq_ok.mp h
    obtain ⟨s₁, hs₁, h⟩ := bind_eq_ok.mp h
    cases h
    rw [mapError_eq_ok] at hop hs₁
    have hs₁ := Op.exec_eq_of_perform hs₁
    refine ⟨[op, .appendDecision f "keeper" .plan
      s!"created fleet with {tasks.length} task(s)" nowMs], ?_, ?_, ?_⟩
    · rw [append_cons, run_snoc, run_snoc, hs₁]
      rfl
    · rw [append_cons]
      exact .other (.create hist hop) rfl
    · obtain ⟨_, rfl, -⟩ := genesis_eq_ok hop
      rfl
  obtain ⟨decision, hdec, h⟩ := bind_eq_ok.mp h
  cases decision with
  | stale =>
    cases h
    exact ⟨[], by rw [append_nil], by rwa [append_nil], rfl⟩
  | call call kind text =>
    obtain ⟨⟨s₁, out₁⟩, hcall, h⟩ := bind_eq_ok.mp h
    rw [mapError_eq_ok] at hcall
    have hrun : run (ops ++ [call.toOp f expectedRevision nowMs]) = s₁ := by
      rw [run_snoc]
      refine Op.exec_eq_of_perform ?_
      rw [PlanCall.perform_eq, hcall]
      rfl
    have hist₁ : PlannedThroughFleet f (ops ++ [call.toOp f expectedRevision nowMs]) :=
      .edit hist (prefix_refl ops) hdec
    cases out₁ with
    | mutated =>
      cases h
      refine ⟨[call.toOp f expectedRevision nowMs, .appendDecision f "keeper" kind text nowMs],
        ?_, ?_, by cases call <;> rfl⟩
      · rw [append_cons, run_snoc, hrun]
        rfl
      · rw [append_cons]
        exact .other hist₁ rfl
    | rejectedTerminalDepChange => cases h
    | _ =>
      cases h
      exact ⟨_, hrun.symm, hist₁, by cases call <;> rfl⟩

end Octos.Fleet
