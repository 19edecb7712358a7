import Mathlib.Data.String.Basic
import Octos.Base.Runs
import Octos.Base.SqlNum
import Octos.Base.Table

/-!
# The goal ledger

The writers of the `goals` table of the SQLite ledger. Every writer is one transaction; the
database serializes those of all processes, so the interleavings of any number of writers are the
lists of their calls. A writer fails when a parameter is out of the signed range, when a
constraint is violated, or by its own checks, and then leaves the database as it was.

An upsert is an insert with an arm for the row that is there already, and an update is a partial
function on the row it addresses. The two forms are `insertGoal` and `updateGoal`.
-/

namespace Octos.Ledger

/-! ## Records -/

/-- The snapshot of a goal that a caller hands over. The status is free text. -/
structure Goal where
  goalId : String
  objective : String
  status : String
  tokensUsed : UInt64
  tokenBudget : UInt64
  timeUsedSeconds : UInt64
  continuationsUsed : UInt32
  revision : UInt64
  createdAtMs : UInt64
  updatedAtMs : UInt64

@[ext] structure GoalRow where
  goalId : String
  objective : String
  status : String
  tokensUsed : SqlNum
  tokenBudget : SqlNum
  continuationsUsed : SqlNum
  revision : SqlNum
  createdAtMs : SqlNum
  updatedAtMs : SqlNum
  timeUsedSeconds : SqlNum

/-- A row of the `tasks` table, as far as the goal writers read it. -/
structure TaskRow where
  goalId : String

/-- A finding. The ledger assigns its sequence and its goal. -/
structure Finding where
  findingId : String
  seq : UInt64
  taskId : Option String
  goalId : String
  kind : String
  lifecycle : String
  confidence : String
  reviewState : String
  assertion : String
  evidence : Option String
  configVersion : Option String
  derivedFrom : Option String
  supersedes : List String
  costTokens : UInt64
  createdAtMs : UInt64
  createdBy : String

/-- A decision. The ledger assigns its goal. -/
structure Decision where
  decisionId : String
  goalId : String
  taskId : Option String
  question : String
  optionsConsidered : Option String
  choice : String
  rationale : String
  basedOnFindings : Option String
  basedOnRev : Int64
  decidedAtMs : UInt64
  decidedBy : String

structure GoalLedger where
  goals : Table String GoalRow
  tasks : Table String TaskRow
  findings : Table String Finding
  decisions : Table String Decision

def emptyLedger : GoalLedger := ⟨.empty, .empty, .empty, .empty⟩

/-! ## Errors -/

inductive SqliteError
  | intConversion
  | constraint

inductive LedgerError
  | sqlite (e : SqliteError)
  | updateGoalStatusFailed (goalId : String) (expectedRevision : UInt64)
  | commitFailed (goalId : String)
  | taskNotFound (taskId : String)
  | crossGoal (taskId taskGoal goalId : String)
  | unknownSuperseded (findingId goalId : String)

/-! ## Statements -/

def bindU64 (n : UInt64) : Except LedgerError SqlNum :=
  orError (SqlNum.ofU64 n) (.sqlite .intConversion)

theorem bindU64_eq_ok {n : UInt64} {x : SqlNum} : bindU64 n = .ok x ↔ SqlNum.ofU64 n = some x :=
  orError_eq_ok

/-- Bind an unsigned 32-bit parameter, which is always in range. -/
def bindU32 (n : UInt32) : SqlNum :=
  ⟨n.toNat, .inl (n.toNat_lt.trans (by decide))⟩

/-- The activation guard: an active goal whose budget is exhausted is budget-limited. -/
def activated (status : String) (tokenBudget tokensUsed : SqlNum) : String :=
  if status = "active" ∧ 0 < tokenBudget.val ∧ tokenBudget ≤ tokensUsed then "budget_limited"
  else status

/-- `status NOT IN ('complete', 'cleared')`. -/
def NotTerminal (status : String) : Prop := status ≠ "complete" ∧ status ≠ "cleared"

instance : DecidablePred NotTerminal := fun status =>
  inferInstanceAs (Decidable (status ≠ "complete" ∧ status ≠ "cleared"))

def bindGoal (goal : Goal) : Except LedgerError GoalRow := do
  let tokensUsed ← bindU64 goal.tokensUsed
  let tokenBudget ← bindU64 goal.tokenBudget
  let revision ← bindU64 goal.revision
  let createdAtMs ← bindU64 goal.createdAtMs
  let updatedAtMs ← bindU64 goal.updatedAtMs
  let timeUsedSeconds ← bindU64 goal.timeUsedSeconds
  return { goalId := goal.goalId, objective := goal.objective, status := goal.status, tokensUsed,
           tokenBudget, continuationsUsed := bindU32 goal.continuationsUsed, revision, createdAtMs,
           updatedAtMs, timeUsedSeconds }

/-- The row the creation writers insert: the snapshot under the activation guard. -/
def insertedRow (goal : Goal) : Except LedgerError GoalRow := do
  let row ← bindGoal goal
  return { row with status := activated row.status row.tokenBudget row.tokensUsed }

/-- Insert a row, or run the conflict arm on the row that is there. The flag tells whether a row
changed. -/
def insertGoal (goals : Table String GoalRow) (row : GoalRow)
    (onConflict : GoalRow → Option GoalRow) : Table String GoalRow × Bool :=
  match goals.get row.goalId with
  | none => (goals.insert row.goalId row, true)
  | some old =>
    match onConflict old with
    | some new => (goals.insert row.goalId new, true)
    | none => (goals, false)

/-- Update the row of a goal, if it is there and meets the condition. The flag tells whether a row
changed. -/
def updateGoal (goals : Table String GoalRow) (goalId : String)
    (set : GoalRow → Option GoalRow) : Table String GoalRow × Bool :=
  match (goals.get goalId).bind set with
  | some new => (goals.insert goalId new, true)
  | none => (goals, false)

/-! ## The writers -/

namespace GoalLedger

variable (L : GoalLedger)

/-- Create a goal; an existing row violates the primary key. -/
def createGoal (goal : Goal) : Except LedgerError GoalLedger := do
  let row ← insertedRow goal
  match L.goals.get row.goalId with
  | some _ => .error (.sqlite .constraint)
  | none => .ok { L with goals := L.goals.insert row.goalId row }

def createGoalIfAbsent (goal : Goal) : Except LedgerError (GoalLedger × Bool) := do
  let row ← insertedRow goal
  let (goals, inserted) := insertGoal L.goals row fun _ => none
  return ({ L with goals }, inserted)

/-- The conflict arm of the upsert: a snapshot that is not older, has no fewer tokens and does not
leave a terminal status replaces the row, but for its revision and its greater time. -/
def upsertArm (excluded goals : GoalRow) : Option GoalRow :=
  if goals.updatedAtMs ≤ excluded.updatedAtMs ∧ goals.tokensUsed ≤ excluded.tokensUsed ∧
      ¬ (goals.status = "complete" ∧ excluded.status ≠ "complete") ∧
      ¬ (goals.status = "cleared" ∧ excluded.status ≠ "cleared") then
    some { goals with
      objective := excluded.objective, status := excluded.status,
      tokensUsed := excluded.tokensUsed, tokenBudget := excluded.tokenBudget,
      continuationsUsed := excluded.continuationsUsed,
      timeUsedSeconds := max goals.timeUsedSeconds excluded.timeUsedSeconds,
      updatedAtMs := excluded.updatedAtMs }
  else none

/-- Insert the snapshot or let it replace the row it is not staler than. -/
def upsertGoal (goal : Goal) : Except LedgerError (GoalLedger × Bool) := do
  let row ← insertedRow goal
  let (goals, admitted) := insertGoal L.goals row (upsertArm row)
  return ({ L with goals }, admitted)

/-- The compare-and-swap of a status: only the status and the timestamp change. -/
def casArm (newStatus expectedStatus : String) (expectedUpdatedAtMs updatedAtMs : SqlNum)
    (row : GoalRow) : Option GoalRow :=
  if row.status = expectedStatus ∧ row.updatedAtMs = expectedUpdatedAtMs ∧
      NotTerminal row.status then
    some { row with
      status := activated newStatus row.tokenBudget row.tokensUsed, updatedAtMs }
  else none

/-- Flip the status of a row that still has the status and the timestamp the caller read. -/
def casGoalStatus (goalId newStatus expectedStatus : String)
    (expectedUpdatedAtMs updatedAtMs : UInt64) : Except LedgerError (GoalLedger × Bool) := do
  let updatedAtMs ← bindU64 updatedAtMs
  let expectedUpdatedAtMs ← bindU64 expectedUpdatedAtMs
  let (goals, changed) :=
    updateGoal L.goals goalId (casArm newStatus expectedStatus expectedUpdatedAtMs updatedAtMs)
  return ({ L with goals }, changed)

/-- The revision-fenced status update. -/
def statusArm (status : String) (expectedRevision updatedAtMs : SqlNum) (row : GoalRow) :
    Option GoalRow :=
  if row.revision = expectedRevision ∧ NotTerminal row.status then
    some { row with
      status := activated status row.tokenBudget row.tokensUsed,
      revision := row.revision.add 1, updatedAtMs }
  else none

def updateGoalStatus (goalId status : String) (expectedRevision updatedAtMs : UInt64) :
    Except LedgerError GoalLedger := do
  let updated ← bindU64 updatedAtMs
  let expected ← bindU64 expectedRevision
  match updateGoal L.goals goalId (statusArm status expected updated) with
  | (_, false) => .error (.updateGoalStatusFailed goalId expectedRevision)
  | (goals, true) => .ok { L with goals }

def checkTask (goalId : String) : Option String → Except LedgerError Unit
  | none => .ok ()
  | some taskId =>
    match L.tasks.get taskId with
    | none => .error (.taskNotFound taskId)
    | some task =>
      if task.goalId ≠ goalId then .error (.crossGoal taskId task.goalId goalId) else .ok ()

def checkSuperseded (goalId findingId : String) : Except LedgerError Unit :=
  if (L.findings.get findingId).any (·.goalId = goalId) then .ok ()
  else .error (.unknownSuperseded findingId goalId)

/-- The sequence after the greatest one of the goal's findings. -/
def nextSeq (goalId : String) : UInt64 :=
  ((L.findings.values.filter (·.goalId = goalId)).map (·.seq)).foldl max 0 + 1

/-- Insert a finding into the goal at its next sequence. -/
def insertFindingValidated (finding : Finding) (goalId : String) :
    Except LedgerError GoalLedger := do
  let seq := L.nextSeq goalId
  L.checkTask goalId finding.taskId
  finding.supersedes.forM (L.checkSuperseded goalId)
  let _ ← bindU64 seq
  let _ ← bindU64 finding.costTokens
  let _ ← bindU64 finding.createdAtMs
  match L.findings.get finding.findingId with
  | some _ => .error (.sqlite .constraint)
  | none =>
    return { L with findings := L.findings.insert finding.findingId { finding with seq, goalId } }

/-- Insert a decision of the goal; its id must be new and its task must exist. -/
def insertDecision (decision : Decision) (goalId : String) : Except LedgerError GoalLedger := do
  let _ ← bindU64 decision.decidedAtMs
  if (L.decisions.get decision.decisionId).isSome ∨
      ¬ decision.taskId.all (fun t => (L.tasks.get t).isSome) then
    .error (.sqlite .constraint)
  else
    return { L with decisions := L.decisions.insert decision.decisionId { decision with goalId } }

/-- Commit a status change with its finding and its decision, all or nothing. The decision is left
out when the activation guard stored another status than the requested one. -/
def commitStateWithAudit (goalId newStatus : String) (expectedRevision updatedAtMs : UInt64)
    (finding : Option Finding) (decision : Option Decision) :
    Except LedgerError (GoalLedger × String) := do
  let updated ← bindU64 updatedAtMs
  let expected ← bindU64 expectedRevision
  match updateGoal L.goals goalId (statusArm newStatus expected updated) with
  | (_, false) => .error (.commitFailed goalId)
  | (goals, true) =>
    let stored := ((goals.get goalId).map (·.status)).getD ""
    let L : GoalLedger := { L with goals }
    let L ← (match finding with
      | some f => L.insertFindingValidated f goalId
      | none => .ok L)
    let L ← (match decision with
      | some d => if stored = newStatus then L.insertDecision d goalId else .ok L
      | none => .ok L)
    return (L, stored)

/-- The conflict arm of the clear stamp: counters and times take the maximum, a complete row stays
complete. -/
def stampArm (excluded goals : GoalRow) : Option GoalRow :=
  some { goals with
    objective := excluded.objective,
    status := if goals.status = "complete" then goals.status else "cleared",
    tokensUsed := max goals.tokensUsed excluded.tokensUsed, tokenBudget := excluded.tokenBudget,
    continuationsUsed := max goals.continuationsUsed excluded.continuationsUsed,
    timeUsedSeconds := max goals.timeUsedSeconds excluded.timeUsedSeconds,
    updatedAtMs := max goals.updatedAtMs excluded.updatedAtMs }

/-- Stamp a goal cleared, creating its row if there is none, and return the stored status. -/
def stampGoalCleared (goal : Goal) : Except LedgerError (GoalLedger × String) := do
  let row ← bindGoal goal
  let row := { row with status := "cleared" }
  let (goals, _) := insertGoal L.goals row (stampArm row)
  return ({ L with goals }, ((goals.get goal.goalId).map (·.status)).getD "")

/-- The settlement of a late charge: the counters take the frozen base and add the charge. -/
def settleArm (baseTokens tokensDelta baseTime timeDelta updatedAtMs : SqlNum) (row : GoalRow) :
    Option GoalRow :=
  some { row with
    tokensUsed := (max row.tokensUsed baseTokens).add tokensDelta,
    timeUsedSeconds := (max row.timeUsedSeconds baseTime).add timeDelta,
    updatedAtMs := max row.updatedAtMs updatedAtMs }

/-- Settle a charge that arrived after its goal was cleared. -/
def settleClearedGoalCostDelta (goalId : String) (frozenBaseTokens tokensDelta
    frozenBaseTimeSeconds timeDelta updatedAtMs : UInt64) :
    Except LedgerError (GoalLedger × Bool) := do
  let baseTokens ← bindU64 frozenBaseTokens
  let tokensDelta ← bindU64 tokensDelta
  let updatedAtMs ← bindU64 updatedAtMs
  let baseTime ← bindU64 frozenBaseTimeSeconds
  let timeDelta ← bindU64 timeDelta
  let (goals, changed) := updateGoal L.goals goalId
    (settleArm baseTokens tokensDelta baseTime timeDelta updatedAtMs)
  return ({ L with goals }, changed)

end GoalLedger

inductive Write
  | createGoal (goal : Goal)
  | createGoalIfAbsent (goal : Goal)
  | upsertGoal (goal : Goal)
  | casGoalStatus (goalId newStatus expectedStatus : String)
      (expectedUpdatedAtMs updatedAtMs : UInt64)
  | updateGoalStatus (goalId status : String) (expectedRevision updatedAtMs : UInt64)
  | commitStateWithAudit (goalId newStatus : String) (expectedRevision updatedAtMs : UInt64)
      (finding : Option Finding) (decision : Option Decision)
  | stampGoalCleared (goal : Goal)
  | settleClearedGoalCostDelta (goalId : String) (frozenBaseTokens tokensDelta
      frozenBaseTimeSeconds timeDelta updatedAtMs : UInt64)

def Write.perform (L : GoalLedger) : Write → Except LedgerError GoalLedger
  | .createGoal goal => L.createGoal goal
  | .createGoalIfAbsent goal => Prod.fst <$> L.createGoalIfAbsent goal
  | .upsertGoal goal => Prod.fst <$> L.upsertGoal goal
  | .casGoalStatus g n e eu u => Prod.fst <$> L.casGoalStatus g n e eu u
  | .updateGoalStatus g s r u => L.updateGoalStatus g s r u
  | .commitStateWithAudit g s r u f d => Prod.fst <$> L.commitStateWithAudit g s r u f d
  | .stampGoalCleared goal => Prod.fst <$> L.stampGoalCleared goal
  | .settleClearedGoalCostDelta g b d bt dt u =>
    Prod.fst <$> L.settleClearedGoalCostDelta g b d bt dt u

/-- The ledger after a call: a failed transaction is rolled back. -/
def Write.exec (L : GoalLedger) (w : Write) : GoalLedger :=
  match w.perform L with
  | .ok L' => L'
  | .error _ => L

/-! ## What a call does to the goals -/

/-- What a call that succeeds does to the `goals` table, one case for each statement it runs. -/
inductive Write.Effect (t : Table String GoalRow) : Write → Table String GoalRow → Prop
  | createGoal {goal : Goal} {row : GoalRow} (hrow : insertedRow goal = .ok row) :
      Effect t (.createGoal goal) (insertGoal t row fun _ => none).1
  | createGoalIfAbsent {goal : Goal} {row : GoalRow} (hrow : insertedRow goal = .ok row) :
      Effect t (.createGoalIfAbsent goal) (insertGoal t row fun _ => none).1
  | upsertGoal {goal : Goal} {row : GoalRow} (hrow : insertedRow goal = .ok row) :
      Effect t (.upsertGoal goal) (insertGoal t row (GoalLedger.upsertArm row)).1
  | casGoalStatus {g new expected : String} {ex at' : UInt64} (expectedAt updated : SqlNum) :
      Effect t (.casGoalStatus g new expected ex at')
        (updateGoal t g (GoalLedger.casArm new expected expectedAt updated)).1
  | updateGoalStatus {g status : String} {ex at' : UInt64} (revision updated : SqlNum) :
      Effect t (.updateGoalStatus g status ex at')
        (updateGoal t g (GoalLedger.statusArm status revision updated)).1
  | commitStateWithAudit {g status : String} {ex at' : UInt64} {f : Option Finding}
      {d : Option Decision} (revision updated : SqlNum) :
      Effect t (.commitStateWithAudit g status ex at' f d)
        (updateGoal t g (GoalLedger.statusArm status revision updated)).1
  | stampGoalCleared {goal : Goal} {row : GoalRow} (hrow : bindGoal goal = .ok row) :
      Effect t (.stampGoalCleared goal)
        (insertGoal t { row with status := "cleared" }
          (GoalLedger.stampArm { row with status := "cleared" })).1
  | settleClearedGoalCostDelta {g : String} {b d bt dt at' : UInt64} {B D BT DT u : SqlNum}
      (hb : bindU64 b = .ok B) (hd : bindU64 d = .ok D) (hbt : bindU64 bt = .ok BT)
      (hdt : bindU64 dt = .ok DT) (hu : bindU64 at' = .ok u) :
      Effect t (.settleClearedGoalCostDelta g b d bt dt at')
        (updateGoal t g (GoalLedger.settleArm B D BT DT u)).1

namespace GoalLedger

variable {L L' : GoalLedger}

theorem createGoal_effect {goal : Goal} (h : L.createGoal goal = .ok L') :
    (Write.createGoal goal).Effect L.goals L'.goals := by
  obtain ⟨row, hrow, h⟩ := bind_eq_ok.mp h
  cases hold : L.goals.get row.goalId with
  | some => simp only [hold] at h; cases h
  | none =>
    simp only [hold] at h
    cases h
    have he := Write.Effect.createGoal (t := L.goals) hrow
    simp only [insertGoal, hold] at he
    exact he

variable {g : String}

theorem insertFindingValidated_goals {f : Finding}
    (h : L.insertFindingValidated f g = .ok L') : L'.goals = L.goals := by
  obtain ⟨⟨⟩, -, h⟩ := bind_eq_ok.mp h
  obtain ⟨⟨⟩, -, h⟩ := bind_eq_ok.mp h
  obtain ⟨_, -, h⟩ := bind_eq_ok.mp h
  obtain ⟨_, -, h⟩ := bind_eq_ok.mp h
  obtain ⟨_, -, h⟩ := bind_eq_ok.mp h
  cases hold : L.findings.get f.findingId with
  | some => simp only [hold] at h; cases h
  | none =>
    simp only [hold] at h
    cases h
    rfl

theorem insertDecision_goals {d : Decision} (h : L.insertDecision d g = .ok L') :
    L'.goals = L.goals := by
  obtain ⟨_, -, h⟩ := bind_eq_ok.mp h
  split_ifs at h
  cases h
  rfl

variable {ex at' : UInt64}

theorem updateGoalStatus_effect {g status : String}
    (h : L.updateGoalStatus g status ex at' = .ok L') :
    (Write.updateGoalStatus g status ex at').Effect L.goals L'.goals := by
  obtain ⟨updated, -, h⟩ := bind_eq_ok.mp h
  obtain ⟨rev, -, h⟩ := bind_eq_ok.mp h
  have he : (Write.updateGoalStatus g status ex at').Effect L.goals
      (updateGoal L.goals g (statusArm status rev updated)).1 := .updateGoalStatus rev updated
  rcases hrun : updateGoal L.goals g (statusArm status rev updated) with ⟨goals, _ | _⟩ <;>
    simp only [hrun] at h he
  · cases h
  · cases h
    exact he

theorem commitStateWithAudit_effect {g status stored : String}
    {f : Option Finding} {d : Option Decision}
    (h : L.commitStateWithAudit g status ex at' f d = .ok (L', stored)) :
    (Write.commitStateWithAudit g status ex at' f d).Effect L.goals L'.goals := by
  obtain ⟨updated, -, h⟩ := bind_eq_ok.mp h
  obtain ⟨rev, -, h⟩ := bind_eq_ok.mp h
  have he : (Write.commitStateWithAudit g status ex at' f d).Effect L.goals
      (updateGoal L.goals g (statusArm status rev updated)).1 := .commitStateWithAudit rev updated
  rcases hrun : updateGoal L.goals g (statusArm status rev updated) with ⟨goals, _ | _⟩ <;>
    simp only [hrun] at h he
  · cases h
  -- the audit rows leave the goals as the update left them
  obtain ⟨L₁, hfinding, h⟩ := bind_eq_ok.mp h
  obtain ⟨L₂, hdecision, h⟩ := bind_eq_ok.mp h
  cases h
  have h₁ : L₁.goals = goals := by
    cases f with
    | none => cases hfinding; rfl
    | some => exact insertFindingValidated_goals hfinding
  have h₂ : L'.goals = L₁.goals := by
    cases d with
    | none => cases hdecision; rfl
    | some =>
      split_ifs at hdecision
      · exact insertDecision_goals hdecision
      · cases hdecision; rfl
  rw [h₂, h₁]
  exact he

end GoalLedger

/-- **A call that succeeds has its effect on the goals.** -/
theorem Write.perform_effect {L L' : GoalLedger} {w : Write} (h : w.perform L = .ok L') :
    w.Effect L.goals L'.goals := by
  cases w with
  | createGoal => exact GoalLedger.createGoal_effect h
  | createGoalIfAbsent | upsertGoal | stampGoalCleared =>
    obtain ⟨_, hcall, rfl⟩ := map_eq_ok.mp h
    obtain ⟨row, hrow, hcall⟩ := bind_eq_ok.mp hcall
    cases hcall
    constructor
    exact hrow
  | casGoalStatus =>
    obtain ⟨_, hcall, rfl⟩ := map_eq_ok.mp h
    obtain ⟨updated, -, hcall⟩ := bind_eq_ok.mp hcall
    obtain ⟨expectedAt, -, hcall⟩ := bind_eq_ok.mp hcall
    cases hcall
    exact .casGoalStatus expectedAt updated
  | updateGoalStatus => exact GoalLedger.updateGoalStatus_effect h
  | commitStateWithAudit =>
    obtain ⟨⟨_, _⟩, hcall, rfl⟩ := map_eq_ok.mp h
    exact GoalLedger.commitStateWithAudit_effect hcall
  | settleClearedGoalCostDelta =>
    obtain ⟨_, hcall, rfl⟩ := map_eq_ok.mp h
    obtain ⟨B, hb, hcall⟩ := bind_eq_ok.mp hcall
    obtain ⟨D, hd, hcall⟩ := bind_eq_ok.mp hcall
    obtain ⟨u, hu, hcall⟩ := bind_eq_ok.mp hcall
    obtain ⟨BT, hbt, hcall⟩ := bind_eq_ok.mp hcall
    obtain ⟨DT, hdt, hcall⟩ := bind_eq_ok.mp hcall
    cases hcall
    exact .settleClearedGoalCostDelta hb hd hbt hdt hu

variable {L : GoalLedger}

theorem Write.perform_settle (g : String) {b d bt dt at' : UInt64}
    {B D BT DT u : SqlNum} (hb : bindU64 b = .ok B) (hd : bindU64 d = .ok D)
    (hbt : bindU64 bt = .ok BT) (hdt : bindU64 dt = .ok DT) (hu : bindU64 at' = .ok u) :
    (Write.settleClearedGoalCostDelta g b d bt dt at').perform L =
      .ok { L with goals := (updateGoal L.goals g (GoalLedger.settleArm B D BT DT u)).1 } := by
  simp only [Write.perform, GoalLedger.settleClearedGoalCostDelta, hb, hd, hbt, hdt, hu]
  rfl

theorem Write.perform_stamp {goal : Goal} {row : GoalRow} (hrow : bindGoal goal = .ok row) :
    (Write.stampGoalCleared goal).perform L =
      .ok { L with goals := (insertGoal L.goals { row with status := "cleared" }
        (GoalLedger.stampArm { row with status := "cleared" })).1 } := by
  simp only [Write.perform, GoalLedger.stampGoalCleared, hrow]
  rfl

end Octos.Ledger
