import Mathlib.Order.Bounds.Basic
import Octos.Ledger.Goals

/-!
# Settling the tasks of the ledger

The writers of the `tasks` table. A terminal verdict comes with the rank of its authority, and a row
takes it if the rank is greater than its own; the status of a verdict is a function of its rank. So
a row holds the greatest rank that has reached it, whatever the order. A status that is not terminal
is taken only by a row without a verdict.

## Main results

* `exec_row`: what a call does to the row of its task
* `settlement_converges`: the order in which calls are delivered does not matter
-/

namespace Octos.Ledger

open List

inductive TaskSettleAuthority
  | provisionalFailure
  | completion
  | finalFailure

def TaskSettleAuthority.rank : TaskSettleAuthority → ℤ
  | .provisionalFailure => 0
  | .completion => 1
  | .finalFailure => 2

def TaskSettleAuthority.ledgerStatus : TaskSettleAuthority → String
  | .provisionalFailure | .finalFailure => "failed"
  | .completion => "complete"

structure Task where
  taskId : String
  goalId : String
  title : String
  detail : String
  status : String
  assignedPeer : Option String
  createdAtMs : UInt64
  updatedAtMs : UInt64

/-- A row of the `tasks` table: the task, and the rank of its verdict or `-1`. -/
structure StoredTask extends Task where
  authority : ℤ

abbrev TaskTable := Table String StoredTask

def creationAuthorityForStatus (status : String) : ℤ :=
  if status = "complete" then TaskSettleAuthority.completion.rank
  else if status = "failed" then TaskSettleAuthority.finalFailure.rank
  else -1

def Task.created (task : Task) : StoredTask :=
  { task with authority := creationAuthorityForStatus task.status }

variable (goals : Table String GoalRow) (tasks : TaskTable)

def createTaskIfAbsent (task : Task) : Except LedgerError (TaskTable × Bool) := do
  let _ ← bindU64 task.createdAtMs
  let _ ← bindU64 task.updatedAtMs
  if (tasks.get task.taskId).isSome then .ok (tasks, false)
  else if (goals.get task.goalId).isNone then .error (.sqlite .constraint)
  else .ok (tasks.insert task.taskId task.created, true)

/-- Update the row of a task, if it is there and meets the condition. -/
def updateTask (taskId : String) (updatedAtMs : UInt64) (set : StoredTask → Option StoredTask) :
    Except LedgerError (TaskTable × Bool) := do
  let _ ← bindU64 updatedAtMs
  match (tasks.get taskId).bind set with
  | some new => .ok (tasks.insert taskId new, true)
  | none => .ok (tasks, false)

def settleTaskStatus (taskId : String) (authority : TaskSettleAuthority) (updatedAtMs : UInt64) :
    Except LedgerError (TaskTable × Bool) :=
  updateTask tasks taskId updatedAtMs fun row =>
    if row.authority < authority.rank then
      some { row with status := authority.ledgerStatus, updatedAtMs, authority := authority.rank }
    else none

def updateTaskStatus (taskId newStatus : String) (updatedAtMs : UInt64) :
    Except LedgerError (TaskTable × Bool) :=
  if newStatus = "complete" then settleTaskStatus tasks taskId .completion updatedAtMs
  else if newStatus = "failed" then settleTaskStatus tasks taskId .finalFailure updatedAtMs
  else updateTask tasks taskId updatedAtMs fun row =>
    if row.authority < 0 then some { row with status := newStatus, updatedAtMs } else none

inductive TaskCall
  | settle (authority : TaskSettleAuthority) (updatedAtMs : UInt64)
  | update (newStatus : String) (updatedAtMs : UInt64)
  | createIfAbsent (task : Task)

def TaskCall.perform (taskId : String) (tasks : TaskTable) :
    TaskCall → Except LedgerError (TaskTable × Bool)
  | .settle authority updatedAtMs => settleTaskStatus tasks taskId authority updatedAtMs
  | .update newStatus updatedAtMs => updateTaskStatus tasks taskId newStatus updatedAtMs
  | .createIfAbsent task => createTaskIfAbsent goals tasks { task with taskId }

/-- The table after a call; one that fails, for a time out of the signed range, leaves it as it
was. -/
def TaskCall.exec (taskId : String) (tasks : TaskTable) (call : TaskCall) : TaskTable :=
  match call.perform goals taskId tasks with
  | .ok (tasks', _) => tasks'
  | .error _ => tasks

/-- The rank that a call delivers to a row, or `-1`. -/
def TaskCall.rank : TaskCall → ℤ
  | .settle authority updatedAtMs => if updatedAtMs.toNat < 2 ^ 63 then authority.rank else -1
  | .update newStatus updatedAtMs =>
    if updatedAtMs.toNat < 2 ^ 63 then creationAuthorityForStatus newStatus else -1
  | .createIfAbsent _ => -1

/-! ## One call -/

def TerminalStatus (status : String) : Prop := status = "complete" ∨ status = "failed"

/-- The status of a row is that of its rank. -/
def Recorded (row : StoredTask) : Prop :=
  (row.authority = -1 ∧ ¬ TerminalStatus row.status) ∨
    ∃ a : TaskSettleAuthority, row.authority = a.rank ∧ row.status = a.ledgerStatus

/-- The row after a rank was delivered: it has the greater one. -/
def Takes (row row' : StoredTask) (rank : ℤ) : Prop :=
  row'.authority = max row.authority rank ∧ Recorded row'

variable (goals : Table String GoalRow) {tasks : TaskTable} {taskId : String} {row : StoredTask}

theorem Recorded.terminal_iff (h : Recorded row) :
    -1 ≤ row.authority ∧ (TerminalStatus row.status ↔ 0 ≤ row.authority) ∧
      (0 ≤ row.authority → row.status = if row.authority = 1 then "complete" else "failed") := by
  unfold Recorded TerminalStatus at *
  rcases h with ⟨hrank, hstatus⟩ | ⟨a, hrank, hstatus⟩
  · rw [hrank]
    exact ⟨le_rfl, iff_of_false hstatus (by decide), fun h => absurd h (by decide)⟩
  · rw [hrank, hstatus]
    cases a <;> simp [TaskSettleAuthority.rank, TaskSettleAuthority.ledgerStatus]

variable {call : TaskCall} {now : UInt64}

theorem exec_update {set : StoredTask → Option StoredTask}
    (hcall : call.perform goals taskId tasks = updateTask tasks taskId now set)
    (h : tasks.get taskId = some row) :
    (call.exec goals taskId tasks).get taskId =
      some (if now.toNat < 2 ^ 63 then (set row).getD row else row) := by
  rw [TaskCall.exec, hcall, updateTask, h, bindU64, SqlNum.ofU64]
  split_ifs
  · cases hset : set row with
    | none => simpa [orError, hset, bind, Except.bind] using h
    | some new => simp [orError, hset, bind, Except.bind]
  · exact h

theorem exec_settle (h : tasks.get taskId = some row) (hrow : Recorded row)
    {a : TaskSettleAuthority}
    (hcall : call.perform goals taskId tasks = settleTaskStatus tasks taskId a now) :
    ∃ row', (call.exec goals taskId tasks).get taskId = some row' ∧
      Takes row row' (if now.toNat < 2 ^ 63 then a.rank else -1) := by
  refine ⟨_, exec_update goals hcall h, ?_⟩
  have hle := hrow.terminal_iff.1
  split_ifs with hnow hlt
  · exact ⟨(max_eq_right hlt.le).symm, .inr ⟨a, rfl, rfl⟩⟩
  · exact ⟨(max_eq_left (not_lt.mp hlt)).symm, hrow⟩
  · exact ⟨(max_eq_left hle).symm, hrow⟩

/-- **What a call does to the row of its task.** -/
theorem exec_row (h : tasks.get taskId = some row) (hrow : Recorded row) (call : TaskCall) :
    ∃ row', (call.exec goals taskId tasks).get taskId = some row' ∧ Takes row row' call.rank := by
  have hkeep : Takes row row (-1) := ⟨(max_eq_left hrow.terminal_iff.1).symm, hrow⟩
  cases call with
  | settle a now => exact exec_settle goals h hrow rfl
  | update s now =>
    rw [TaskCall.rank, creationAuthorityForStatus]
    by_cases hc : s = "complete"
    · rw [if_pos hc]
      exact exec_settle goals h hrow (if_pos hc)
    by_cases hf : s = "failed"
    · rw [if_neg hc, if_pos hf]
      exact exec_settle goals h hrow ((if_neg hc).trans (if_pos hf))
    refine ⟨_, exec_update goals ((if_neg hc).trans (if_neg hf)) h, ?_⟩
    split_ifs with hnow hlt
    · -- a row without a verdict takes the status, which is not terminal
      have hnone := le_antisymm (Int.lt_add_one_iff.mp hlt) hrow.terminal_iff.1
      exact ⟨hkeep.1, .inl ⟨hnone, not_or.mpr ⟨hc, hf⟩⟩⟩
    · exact hkeep
    · exact hkeep
  | createIfAbsent task =>
    refine ⟨row, ?_, hkeep⟩
    -- the row is there, so a creation keeps it
    unfold TaskCall.exec
    split
    · rename_i hok
      obtain ⟨_, -, hok⟩ := bind_eq_ok.mp hok
      obtain ⟨_, -, hok⟩ := bind_eq_ok.mp hok
      rw [if_pos (by rw [h]; rfl)] at hok
      cases hok
      exact h
    · exact h

/-! ## Delivery orders -/

def rowAfter (taskId : String) (tasks : TaskTable) (calls : List TaskCall) : Option StoredTask :=
  (calls.foldl (TaskCall.exec goals taskId) tasks).get taskId

theorem exec_rows (h : tasks.get taskId = some row) (hrow : Recorded row) (calls : List TaskCall) :
    ∃ row', rowAfter goals taskId tasks calls = some row' ∧ Recorded row' ∧
      IsGreatest (insert row.authority {rank | ∃ call ∈ calls, call.rank = rank})
        row'.authority := by
  induction calls generalizing tasks row with
  | nil => exact ⟨row, h, hrow, by simp⟩
  | cons call calls ih =>
    obtain ⟨row₁, h₁, hrank, hrow₁⟩ := exec_row goals h hrow call
    obtain ⟨row', h', hrow', hmem, hle⟩ := ih h₁ hrow₁
    rw [hrank] at hmem hle
    refine ⟨row', h', hrow', ?_, ?_⟩
    · rcases hmem with heq | ⟨c, hc, heq⟩
      · rcases max_choice row.authority call.rank with hmax | hmax
        · exact .inl (heq.trans hmax)
        · exact .inr ⟨call, mem_cons_self, (heq.trans hmax).symm⟩
      · exact .inr ⟨c, mem_cons_of_mem _ hc, heq⟩
    · have hmax := hle (Set.mem_insert ..)
      rintro rank (rfl | ⟨c, hc, rfl⟩)
      · exact (le_max_left ..).trans hmax
      · rcases mem_cons.mp hc with rfl | hc
        · exact (le_max_right ..).trans hmax
        · exact hle (.inr ⟨c, hc, rfl⟩)

theorem Task.recorded_created (task : Task) : Recorded task.created := by
  unfold Recorded TerminalStatus Task.created creationAuthorityForStatus
  split_ifs with hc hf
  · exact .inr ⟨.completion, rfl, hc⟩
  · exact .inr ⟨.finalFailure, rfl, hf⟩
  · exact .inl ⟨rfl, not_or.mpr ⟨hc, hf⟩⟩

/-- **The order of delivery does not matter.** In every order the row ends with the greatest of the
rank it was created with and those that were delivered, and with the status of that rank. A terminal
status stays terminal. -/
theorem settlement_converges {task : Task} (h : tasks.get taskId = some task.created)
    {calls : List TaskCall} (hterminal : ∃ call ∈ calls, 0 ≤ call.rank) :
    (∀ order, order.Perm calls → ∃ row, rowAfter goals taskId tasks order = some row ∧
      IsGreatest (insert (creationAuthorityForStatus task.status)
        {rank | ∃ call ∈ calls, call.rank = rank}) row.authority ∧
      row.status = if row.authority = 1 then "complete" else "failed") ∧
    ∀ before later row, rowAfter goals taskId tasks before = some row → TerminalStatus row.status →
      ∃ row', rowAfter goals taskId tasks (before ++ later) = some row' ∧
        TerminalStatus row'.status := by
  constructor
  · intro order horder
    obtain ⟨row, hget, hrow, hgreatest⟩ := exec_rows goals h task.recorded_created order
    simp only [horder.mem_iff] at hgreatest
    obtain ⟨call, hcall, hpos⟩ := hterminal
    refine ⟨row, hget, hgreatest, hrow.terminal_iff.2.2 ?_⟩
    exact hpos.trans (hgreatest.2 (.inr ⟨call, hcall, rfl⟩))
  · intro before later row hget hstatus
    obtain ⟨_, hget', hrow, -⟩ := exec_rows goals h task.recorded_created before
    cases hget.symm.trans hget'
    obtain ⟨row', hlater, hrow', -, hle⟩ := exec_rows goals hget hrow later
    rw [rowAfter, ← foldl_append] at hlater
    refine ⟨row', hlater, hrow'.terminal_iff.2.1.mpr ?_⟩
    exact (hrow.terminal_iff.2.1.mp hstatus).trans (hle (Set.mem_insert ..))

/-- A provisional failure and a completion, for a task that was created running. -/
theorem settlement_converges_lateFailure :
    let tasks := Table.empty.insert "t" (⟨"t", "g", "", "", "running", none, 0, 0⟩ : Task).created
    ∃ row, rowAfter Table.empty "t" tasks [.settle .completion 1, .settle .provisionalFailure 2] =
        some row ∧ row.status = if row.authority = 1 then "complete" else "failed" := by
  intro tasks
  obtain ⟨row, hget, -, hstatus⟩ := (settlement_converges Table.empty
    (Table.get_insert_self Table.empty "t" _)
    ⟨.settle .completion 1, mem_cons_self, by decide⟩).1 _ (.refl _)
  exact ⟨row, hget, hstatus⟩

end Octos.Ledger
