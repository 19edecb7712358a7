import Octos.Base.Json
import Octos.Base.Table
import Octos.Base.Text

/-!
# Background tasks

`octos-agent/src/task_supervisor.rs`: the record of a background task, the transitions that a
supervisor applies to its copy, and the ledger of snapshots that supervisors share. Of two snapshots
of a task the later one counts; on a tie only progress of the lifecycle does.

The times are readings of one clock, the ids those that are given out one after another.
-/

namespace Octos.Tasks

open List

/-! ## The record -/

/-- The ids of `TaskId::new`, in the order in which they are given out. -/
abbrev TaskId := ℕ

inductive TaskStatus
  | spawned
  | running
  | completed
  | failed
  | cancelled
  | parked
deriving DecidableEq

namespace TaskStatus

def isActive : TaskStatus → Bool
  | spawned => true
  | running => true
  | _ => false

def isTerminal : TaskStatus → Bool
  | completed => true
  | failed => true
  | cancelled => true
  | _ => false

theorem isActive_eq_false_of_isTerminal {s : TaskStatus} (h : s.isTerminal = true) :
    s.isActive = false := by
  cases s <;> first | rfl | cases h

end TaskStatus

inductive TaskRuntimeState
  | spawned
  | executingTool
  | resolvingOutputs
  | verifyingOutputs
  | deliveringOutputs
  | cleaningUp
  | completed
  | failed
  | cancelled

def isTerminalRuntimeState : TaskRuntimeState → Bool
  | .completed => true
  | .failed => true
  | .cancelled => true
  | _ => false

inductive ChildSessionTerminalState
  | completed
  | retryableFailure
  | terminalFailure

inductive ChildSessionJoinState
  | joined
  | orphaned

inductive ChildSessionFailureAction
  | retry
  | escalate

def childFailureActionForTerminalState : ChildSessionTerminalState →
    Option ChildSessionFailureAction
  | .completed => none
  | .retryableFailure => some .retry
  | .terminalFailure => some .escalate

structure BackgroundTask where
  id : TaskId
  toolName : String
  toolCallId : String
  parentSessionKey : Option String
  childTerminalState : Option ChildSessionTerminalState
  childJoinState : Option ChildSessionJoinState
  childJoinedAt : Option ℕ
  childFailureAction : Option ChildSessionFailureAction
  status : TaskStatus
  runtimeState : TaskRuntimeState
  runtimeDetail : Option String
  updatedAt : ℕ
  completedAt : Option ℕ
  outputFiles : List String
  error : Option String
  finalOutput : Option String
  failedByObserver : Bool
  toolInput : Option Json
  originatingClientMessageId : Option String
  summary : Option String
  artifactCount : Option UInt32

namespace BackgroundTask

/-- The task failed, and it was an observer who said so. -/
def observerFailed (t : BackgroundTask) : Bool := t.status = .failed && t.failedByObserver

/-- A verdict that stays: `Completed`, `Cancelled`, or `Failed` as its owner reports. -/
def isFinal (t : BackgroundTask) : Bool := t.status.isTerminal && !t.observerFailed

def isPipelineNode (t : BackgroundTask) : Bool := "pipeline:".toList.isPrefixOf t.toolName.toList

theorem isTerminal_of_isFinal {t : BackgroundTask} (h : t.isFinal = true) :
    t.status.isTerminal = true :=
  ((Bool.and_eq_true ..).mp h).1

end BackgroundTask

/-! ## Transitions -/

section

variable (now : ℕ) (t : BackgroundTask)

def markRunning : Option BackgroundTask :=
  if t.status.isTerminal then none
  else some { t with
    status := .running
    runtimeState := .executingTool
    runtimeDetail := none
    updatedAt := now }

def markRuntimeState (runtimeState : TaskRuntimeState) (runtimeDetail : Option String) :
    Option BackgroundTask :=
  if t.status.isTerminal then none
  else some { t with
    runtimeState := runtimeState
    runtimeDetail := runtimeDetail
    updatedAt := now }

/-- The record as `mark_completed` finds it: the verdict of an observer is taken back. -/
def withoutObserverVerdict : BackgroundTask :=
  if t.observerFailed then
    { t with failedByObserver := false, error := none, summary := none } else t

def completionSummary (toolName : String) (artifactCount : UInt32) : String :=
  if 0 < artifactCount then
    toolName ++ " completed with " ++ toString artifactCount.toNat ++ " artifact(s)"
  else toolName ++ " completed"

def markCompleted (outputFiles : List String) : Option BackgroundTask :=
  if t.status.isTerminal && !t.observerFailed then none
  else
    let t := withoutObserverVerdict t
    let artifactCount := UInt32.ofNat outputFiles.length
    some { t with
      status := .completed
      runtimeState := .completed
      updatedAt := now
      completedAt := some now
      outputFiles := outputFiles
      artifactCount :=
        if t.artifactCount.isSome || 0 < artifactCount then some artifactCount else t.artifactCount
      summary := some (t.summary.getD (completionSummary t.toolName artifactCount)) }

def finalOutputCapBytes : ℕ := 128 * 1024

/-- It has no guard. -/
def recordFinalOutput (output : String) : Option BackgroundTask :=
  some { t with
    finalOutput := some (String.ofList
      (truncateUtf8 output.toList finalOutputCapBytes "\n…[final output truncated]".toList))
    updatedAt := now }

def markParked (reason : String) : Option BackgroundTask :=
  if t.status.isTerminal then none
  else some { t with
    status := .parked
    runtimeState := .failed
    error := some reason
    runtimeDetail := some reason
    updatedAt := now }

/-- A failed task may fail again. -/
def markFailedInner (error : String) (observed : Bool) : Option BackgroundTask :=
  if t.status = .cancelled ∨ t.status = .completed then none
  else some { t with
    status := .failed
    runtimeState := .failed
    failedByObserver :=
      if !observed then false else if t.status ≠ .failed then true else t.failedByObserver
    updatedAt := now
    completedAt := some now
    summary := some (t.summary.getD (String.ofList (error.toList.take 1200)))
    error := some error }

def cancel : Option BackgroundTask :=
  if t.status.isTerminal then none
  else some { t with
    status := .cancelled
    runtimeState := .cancelled
    updatedAt := now
    completedAt := some now
    error := some (t.error.getD "cancelled by supervisor") }

/-- It has no guard. -/
def markChildSessionOutcome (terminalState : ChildSessionTerminalState)
    (joinState : Option ChildSessionJoinState) : Option BackgroundTask :=
  some { t with
    childTerminalState := some terminalState
    childJoinState := joinState.or t.childJoinState
    childJoinedAt := joinState.elim t.childJoinedAt fun
      | .joined => some now
      | .orphaned => none
    childFailureAction := childFailureActionForTerminalState terminalState
    updatedAt := now }

/-- `set_m13b_projection`; `others` says whether a source, a role or a policy stamp is given. -/
def setM13bProjection (summary : Option String) (artifactCount : Option UInt32) (others : Bool) :
    Option BackgroundTask :=
  if summary.isNone && artifactCount.isNone && !others then none
  else some { t with
    summary := summary.or t.summary
    artifactCount := artifactCount.or t.artifactCount
    updatedAt := now }

/-- `set_workspace_root`, `set_relaunched_from` and `set_projection_metadata`, whose fields nothing
here reads. -/
def setMetadata : Option BackgroundTask := some { t with updatedAt := now }

end

inductive Mark
  | running
  | runtimeState (runtimeState : TaskRuntimeState) (runtimeDetail : Option String)
  | completed (outputFiles : List String)
  | finalOutput (output : String)
  | parked (reason : String)
  | failed (error : String) (observed : Bool)
  | cancelled
  | childOutcome (terminalState : ChildSessionTerminalState)
      (joinState : Option ChildSessionJoinState)
  | projection (summary : Option String) (artifactCount : Option UInt32) (others : Bool)
  | metadata

namespace Mark

/-- The record after the transition, unless its guard stops it. -/
def apply (now : ℕ) (t : BackgroundTask) : Mark → Option BackgroundTask
  | running => markRunning now t
  | runtimeState state detail => markRuntimeState now t state detail
  | completed outputFiles => markCompleted now t outputFiles
  | finalOutput output => recordFinalOutput now t output
  | parked reason => markParked now t reason
  | failed error observed => markFailedInner now t error observed
  | cancelled => cancel now t
  | childOutcome terminalState joinState => markChildSessionOutcome now t terminalState joinState
  | projection summary artifactCount others => setM13bProjection now t summary artifactCount others
  | metadata => setMetadata now t

/-- The transition is a verdict. -/
def settles : Mark → Bool
  | completed _ => true
  | failed _ _ => true
  | cancelled => true
  | _ => false

end Mark

/-! ## What transitions keep -/

section

variable {now : ℕ} {t t' : BackgroundTask} {m : Mark}

/-- What no transition changes. -/
structure SameTask (t t' : BackgroundTask) : Prop where
  id : t'.id = t.id
  toolName : t'.toolName = t.toolName
  toolCallId : t'.toolCallId = t.toolCallId
  parentSessionKey : t'.parentSessionKey = t.parentSessionKey

theorem sameTask_withoutObserverVerdict (t : BackgroundTask) :
    SameTask t (withoutObserverVerdict t) := by
  rw [withoutObserverVerdict]
  split_ifs <;> exact ⟨rfl, rfl, rfl, rfl⟩

variable {error : String} {observed : Bool}

theorem markFailedInner_spec (h : markFailedInner now t error observed = some t') :
    ¬ (t.status = .cancelled ∨ t.status = .completed) ∧ SameTask t t' ∧ t'.updatedAt = now ∧
      t'.status = .failed ∧ t'.error = some error := by
  rw [markFailedInner] at h
  by_cases hguard : t.status = .cancelled ∨ t.status = .completed
  · rw [if_pos hguard] at h
    cases h
  · rw [if_neg hguard] at h
    cases h
    exact ⟨hguard, ⟨rfl, rfl, rfl, rfl⟩, rfl, rfl, rfl⟩

/-- The status that a transition leads to. -/
def Mark.target (t : BackgroundTask) : Mark → TaskStatus
  | running => .running
  | completed _ => .completed
  | parked _ => .parked
  | failed _ _ => .failed
  | cancelled => .cancelled
  | _ => t.status

section

variable (h : m.apply now t = some t')
include h

/-- What transitions keep, and their guards: a transition that goes through meets a task that is not
settled, or keeps the status, or overrules an observer, or lets a failed task fail again. -/
theorem Mark.apply_spec :
    (SameTask t t' ∧ t'.updatedAt = now) ∧ t'.status = m.target t ∧
      (t.status.isTerminal = true → m.target t = t.status ∨
        (m.settles = true ∧ t.status = .failed)) := by
  cases m with
  | running | parked | cancelled =>
    dsimp only [apply, markRunning, markParked, cancel] at h
    split_ifs at h with hguard
    cases h
    exact ⟨⟨⟨rfl, rfl, rfl, rfl⟩, rfl⟩, rfl, fun hterminal => absurd hterminal hguard⟩
  | runtimeState | projection =>
    dsimp only [apply, markRuntimeState, setM13bProjection] at h
    split_ifs at h
    cases h
    exact ⟨⟨⟨rfl, rfl, rfl, rfl⟩, rfl⟩, rfl, fun _ => .inl rfl⟩
  | completed =>
    rw [apply, markCompleted] at h
    split_ifs at h with hguard
    cases h
    have hsame := sameTask_withoutObserverVerdict t
    refine ⟨⟨⟨hsame.id, hsame.toolName, hsame.toolCallId, hsame.parentSessionKey⟩, rfl⟩, rfl,
      fun hterminal => .inr ⟨rfl, ?_⟩⟩
    simp only [hterminal, Bool.true_and, Bool.not_eq_true', Bool.not_eq_false] at hguard
    have hfailed := ((Bool.and_eq_true ..).mp hguard).1
    simpa using hfailed
  | failed =>
    obtain ⟨hguard, hsame, hat, hfailed, -⟩ := markFailedInner_spec h
    refine ⟨⟨hsame, hat⟩, hfailed, fun hterminal => .inr ⟨rfl, ?_⟩⟩
    cases hstatus : t.status <;> simp_all [TaskStatus.isTerminal]
  | _ =>
    cases h
    exact ⟨⟨⟨rfl, rfl, rfl, rfl⟩, rfl⟩, rfl, fun _ => .inl rfl⟩

theorem Mark.apply_sameTask : SameTask t t' ∧ t'.updatedAt = now :=
  (apply_spec h).1

theorem Mark.apply_status :
    t'.status = m.target t ∧
      (t.status.isTerminal = true → m.target t = t.status ∨
        (m.settles = true ∧ t.status = .failed)) :=
  (apply_spec h).2

/-- **A transition that goes through ends in a terminal status exactly when it settles the task or
the task was settled.** -/
theorem Mark.isTerminal_apply : t'.status.isTerminal = (t.status.isTerminal || m.settles) := by
  obtain ⟨hstatus, hguard⟩ := Mark.apply_status h
  cases hterminal : t.status.isTerminal with
  | true =>
    rw [hstatus]
    rcases hguard hterminal with hkept | ⟨hsettles, -⟩
    · rw [hkept, hterminal]
      rfl
    · cases m <;> first | rfl | cases hsettles
  | false =>
    rw [hstatus]
    cases m <;> first | rfl | exact hterminal

end

theorem Mark.error_of_apply
    (h : (Mark.failed error observed).apply now t = some t') : t'.error = some error :=
  (markFailedInner_spec h).2.2.2.2

theorem Mark.failed_iff_of_apply (h : m.apply now t = some t') (hm : m.settles = false) :
    t'.status = .failed ↔ t.status = .failed := by
  obtain ⟨hstatus, hguard⟩ := Mark.apply_status h
  rw [hstatus]
  -- a failed task is terminal, so the transition keeps its status
  have hkept : t.status = .failed → m.target t = t.status := fun hfailed => by
    refine (hguard (by rw [hfailed]; rfl)).resolve_right fun hsettles => ?_
    rw [hm] at hsettles
    cases hsettles.1
  refine ⟨fun htarget => ?_, fun hfailed => (hkept hfailed).trans hfailed⟩
  cases m with
  | running | parked => cases htarget
  | completed | failed | cancelled => cases hm
  | _ => exact htarget

theorem Mark.isActive_of_apply (h : m.apply now t = some t') (hactive : t'.status.isActive = true) :
    t.status.isActive = true ∨ (m = running ∧ t.status = .parked) := by
  obtain ⟨hstatus, hguard⟩ := Mark.apply_status h
  rw [hstatus] at hactive
  cases m with
  | running =>
    cases hold : t.status with
    | spawned | running => exact .inl rfl
    | parked => exact .inr ⟨rfl, rfl⟩
    | completed | failed | cancelled =>
      exact absurd (hguard (by rw [hold]; rfl)) (by simp [target, settles, hold])
  | completed | parked | failed | cancelled => cases hactive
  | runtimeState state detail | finalOutput output | childOutcome terminalState joinState
  | projection | metadata => exact .inl hactive

end

/-! ## The ledger -/

/-- The later snapshot counts; on a tie, a verdict over an open task, and a
completion or the owner's failure over the verdict of an observer. -/
def taskSnapshotAdvances (candidate existing : BackgroundTask) : Bool :=
  if existing.updatedAt < candidate.updatedAt then true
  else if candidate.updatedAt < existing.updatedAt then false
  else
    (candidate.status.isTerminal && !existing.status.isTerminal) ||
      (existing.status = .failed && existing.failedByObserver &&
        (candidate.status =
          .completed || (candidate.status = .failed && !candidate.failedByObserver)))

/-- Keep the snapshot of a task that counts, as the readers of a ledger do for each of its rows. -/
def mergeTask (tasks : Table TaskId BackgroundTask) (task : BackgroundTask) :
    Table TaskId BackgroundTask :=
  match tasks.get task.id with
  | some existing => if taskSnapshotAdvances task existing then tasks.insert task.id task else tasks
  | none => tasks.insert task.id task

/-- `load_persisted_tasks`, of the rows that can be read. -/
def loadPersistedTasks (rows : List BackgroundTask) : Table TaskId BackgroundTask :=
  rows.foldl mergeTask Table.empty

/-- The copies of a supervisor, freshened by the ledger. -/
def taskStatusSnapshot (tasks : Table TaskId BackgroundTask) (rows : List BackgroundTask) :
    Table TaskId BackgroundTask :=
  (loadPersistedTasks rows).values.foldl mergeTask tasks

def refreshTask (tasks : Table TaskId BackgroundTask) (task : BackgroundTask) :
    Table TaskId BackgroundTask :=
  match tasks.get task.id with
  | some existing => if taskSnapshotAdvances task existing then tasks.insert task.id task else tasks
  | none => tasks

/-- `refresh_from_persistence`, once the ledger has been read: a task without a copy is not
imported. -/
def refreshFromPersistence (tasks restored : Table TaskId BackgroundTask) :
    Table TaskId BackgroundTask :=
  restored.values.foldl refreshTask tasks

/-- `refresh_task_from_persistence`, once the ledger has been read. -/
def refreshTaskFromPersistence (tasks : Table TaskId BackgroundTask)
    (restored : Option BackgroundTask) :
    Table TaskId BackgroundTask :=
  restored.elim tasks (refreshTask tasks)

/-! ## Which snapshot counts -/

/-- The second snapshot is at least as far as the first: it is later, or of the same time and
terminal if the first is. -/
def Before (a b : BackgroundTask) : Prop :=
  a.updatedAt < b.updatedAt ∨
    (a.updatedAt = b.updatedAt ∧ (a.status.isTerminal = true → b.status.isTerminal = true))

theorem Before.refl (a : BackgroundTask) : Before a a := .inr ⟨rfl, id⟩

variable {a b candidate existing : BackgroundTask}

theorem Before.trans {c : BackgroundTask} (hab : Before a b) (hbc : Before b c) : Before a c := by
  rcases hab with hab | ⟨hab, hstatus⟩
  · rcases hbc with hbc | ⟨hbc, -⟩
    · exact .inl (hab.trans hbc)
    · exact .inl (hbc ▸ hab)
  · rcases hbc with hbc | ⟨hbc, hstatus'⟩
    · exact .inl (hab ▸ hbc)
    · exact .inr ⟨hab.trans hbc, fun h => hstatus' (hstatus h)⟩

theorem before_of_advances (h : taskSnapshotAdvances candidate existing = true) :
    Before existing candidate := by
  rw [taskSnapshotAdvances] at h
  split_ifs at h with hlt hgt
  · exact .inl hlt
  · refine .inr ⟨by omega, fun _ => ?_⟩
    -- a tie is decided by a candidate that is terminal
    rcases (Bool.or_eq_true ..).mp h with h | h
    · exact ((Bool.and_eq_true ..).mp h).1
    · cases hstatus : candidate.status <;> simp_all [TaskStatus.isTerminal]

theorem before_of_not_advances (h : ¬ taskSnapshotAdvances candidate existing = true) :
    Before candidate existing := by
  rw [taskSnapshotAdvances] at h
  split_ifs at h with hlt hgt
  · exact absurd rfl h
  · exact .inl hgt
  · refine .inr ⟨by omega, fun hterminal => ?_⟩
    by_contra hopen
    simp [hterminal, hopen] at h

theorem Before.lt_of_open (h : Before a b) (ha : a.status.isTerminal = true)
    (hb : ¬ b.status.isTerminal = true) : a.updatedAt < b.updatedAt := by
  rcases h with h | ⟨-, hstatus⟩
  · exact h
  · exact absurd (hstatus ha) hb

section

variable {tasks : Table TaskId BackgroundTask} {task x : BackgroundTask} {id : TaskId}
  {rows : List BackgroundTask}

variable (id) in
/-- The copy of a task and the row after it: which of them counts. -/
def countStep (best : Option BackgroundTask) (row : BackgroundTask) : Option BackgroundTask :=
  if row.id = id ∧ best.all (taskSnapshotAdvances row) = true then some row else best

variable (tasks)

theorem get_mergeTask_eq (row : BackgroundTask) :
    (mergeTask tasks row).get id = countStep id (tasks.get id) row := by
  rw [mergeTask, countStep]
  by_cases hid : row.id = id
  · subst hid
    cases hget : tasks.get row.id with
    | none => simp
    | some existing =>
      by_cases hadv : taskSnapshotAdvances row existing = true
      · simp [hadv]
      · simp [hadv, hget]
  · have hne : id ≠ row.id := fun h => hid h.symm
    rw [if_neg fun h => hid h.1]
    split
    · split_ifs
      · exact Table.get_insert_of_ne _ _ hne
      · rfl
    · exact Table.get_insert_of_ne _ _ hne

theorem get_foldl_mergeTask_eq (rows : List BackgroundTask) :
    (rows.foldl mergeTask tasks).get id = rows.foldl (countStep id) (tasks.get id) := by
  induction rows generalizing tasks with
  | nil => rfl
  | cons row rows ih => rw [foldl_cons, foldl_cons, ih, get_mergeTask_eq]

variable {tasks}

/-- A row of the task leaves a copy that neither the old one nor the row is beyond. -/
theorem countStep_cases (best : Option BackgroundTask) (row : BackgroundTask) :
    (countStep id best row = best ∧ (row.id = id → ∃ e, best = some e ∧ Before row e)) ∨
      (countStep id best row = some row ∧ row.id = id ∧ ∀ e, best = some e → Before e row) := by
  rw [countStep]
  split_ifs with h
  · refine .inr ⟨rfl, h.1, fun e he => before_of_advances ?_⟩
    rw [he] at h
    exact h.2
  · refine .inl ⟨rfl, fun hid => ?_⟩
    cases best with
    | none => exact absurd ⟨hid, rfl⟩ h
    | some e => exact ⟨e, rfl, before_of_not_advances fun hadv => h ⟨hid, hadv⟩⟩

theorem foldl_countStep {best : Option BackgroundTask}
    (h : rows.foldl (countStep id) best = some x) :
    (best = some x ∨ (x ∈ rows ∧ x.id = id)) ∧
      (∀ e, best = some e → Before e x) ∧ (∀ row ∈ rows, row.id = id → Before row x) := by
  induction rows generalizing best with
  | nil =>
    refine ⟨.inl h, fun e he => ?_, forall_mem_nil _⟩
    obtain rfl : e = x := Option.some.inj (he.symm.trans h)
    exact Before.refl _
  | cons row rows ih =>
    obtain ⟨hfrom, hcopy, hrows⟩ := ih h
    have hfrom' : countStep id best row = some x ∨ (x ∈ row :: rows ∧ x.id = id) :=
      hfrom.imp_right fun hx => ⟨mem_cons_of_mem _ hx.1, hx.2⟩
    rw [forall_mem_cons]
    rcases countStep_cases best row with ⟨hstep, hrow⟩ | ⟨hstep, hid, hbest⟩
    · rw [hstep] at hfrom' hcopy
      refine ⟨hfrom', hcopy, fun hid => ?_, hrows⟩
      obtain ⟨e, he, hbefore⟩ := hrow hid
      exact hbefore.trans (hcopy e he)
    · rw [hstep] at hfrom' hcopy
      refine ⟨.inr (hfrom'.elim (fun hx => ?_) fun hx => hx),
        fun e he => (hbest e he).trans (hcopy row rfl), fun _ => hcopy row rfl, hrows⟩
      obtain rfl := Option.some.inj hx
      exact ⟨mem_cons_self, hid⟩

theorem exists_foldl_countStep {best : Option BackgroundTask}
    (h : (∃ row ∈ rows, row.id = id) ∨ ∃ e, best = some e) :
    ∃ x, rows.foldl (countStep id) best = some x := by
  induction rows generalizing best with
  | nil =>
    rcases h with ⟨row, hrow, -⟩ | h
    · cases hrow
    · exact h
  | cons row rows ih =>
    rcases countStep_cases best row with ⟨hstep, hrow⟩ | ⟨hstep, -⟩
    · rw [foldl_cons, hstep]
      apply ih
      rcases h with ⟨r, hr, hid⟩ | h
      · rcases mem_cons.mp hr with rfl | hr
        · obtain ⟨e, he, -⟩ := hrow hid
          exact .inr ⟨e, he⟩
        · exact .inl ⟨r, hr, hid⟩
      · exact .inr h
    · rw [foldl_cons, hstep]
      exact ih (.inr ⟨row, rfl⟩)

theorem get_foldl_mergeTask (h : (rows.foldl mergeTask tasks).get id = some x) :
    (tasks.get id = some x ∨ (x ∈ rows ∧ x.id = id)) ∧
      (∀ e, tasks.get id = some e → Before e x) ∧ (∀ row ∈ rows, row.id = id → Before row x) := by
  rw [get_foldl_mergeTask_eq] at h
  exact foldl_countStep h

variable (tasks rows) in
theorem exists_get_foldl_mergeTask (h : (∃ row ∈ rows, row.id = id) ∨ ∃ e, tasks.get id = some e) :
    ∃ x, (rows.foldl mergeTask tasks).get id = some x := by
  rw [get_foldl_mergeTask_eq]
  exact exists_foldl_countStep h

/-- **What a ledger says of a task is one of its rows, and no row of the task is beyond it.** -/
theorem get_loadPersistedTasks (h : (loadPersistedTasks rows).get id = some x) :
    x ∈ rows ∧ x.id = id ∧ ∀ row ∈ rows, row.id = id → Before row x := by
  obtain ⟨hfrom, -, hrows⟩ := get_foldl_mergeTask h
  rcases hfrom with hfrom | ⟨hmem, hid⟩
  · cases hfrom
  · exact ⟨hmem, hid, hrows⟩

theorem mem_values_loadPersistedTasks (h : x ∈ (loadPersistedTasks rows).values) : x ∈ rows := by
  obtain ⟨id, hget⟩ := Table.mem_values.mp h
  exact (get_loadPersistedTasks hget).1

/-! ## Freshening copies -/

variable (tasks)

theorem get_refreshTask_eq (row : BackgroundTask) :
    (refreshTask tasks row).get id = (tasks.get id).bind fun e => countStep id (some e) row := by
  cases hrow : tasks.get row.id with
  | none =>
    rw [refreshTask, hrow]
    cases hget : tasks.get id with
    | none => rfl
    | some =>
      have hne : ¬ row.id = id := fun hid => by simp [hid, hget] at hrow
      rw [Option.bind_some, countStep, if_neg fun h => hne h.1]
  | some =>
    have hmerge :
        refreshTask tasks row = mergeTask tasks row := by rw [refreshTask, mergeTask, hrow]
    rw [hmerge, get_mergeTask_eq]
    cases hget : tasks.get id with
    | none =>
      have hne : ¬ row.id = id := fun hid => by simp [hid, hget] at hrow
      exact if_neg fun h => hne h.1
    | some => rfl

/-- Freshening is merging where there is a copy, and nothing else. -/
theorem get_foldl_refreshTask_eq (rows : List BackgroundTask) :
    (rows.foldl refreshTask tasks).get id =
      (tasks.get id).bind fun e => rows.foldl (countStep id) (some e) := by
  induction rows generalizing tasks with
  | nil => cases h : tasks.get id <;> exact h
  | cons row rows ih =>
    rw [foldl_cons, ih, get_refreshTask_eq]
    cases tasks.get id with
    | none => rfl
    | some e =>
      rcases @countStep_cases id (some e) row with ⟨hstep, -⟩ | ⟨hstep, -⟩ <;> simp [hstep]

variable {tasks}

/-- What freshening leaves of a task: it had a copy, and neither that nor a row is beyond it. -/
theorem get_foldl_refreshTask (h : (rows.foldl refreshTask tasks).get id = some x) :
    (tasks.get id = some x ∨ (x ∈ rows ∧ x.id = id)) ∧
      (∃ e, tasks.get id = some e ∧ Before e x) ∧ (∀ row ∈ rows, row.id = id → Before row x) := by
  rw [get_foldl_refreshTask_eq] at h
  obtain ⟨e, he, h⟩ := Option.bind_eq_some_iff.mp h
  obtain ⟨hfrom, hcopy, hrows⟩ := foldl_countStep h
  exact ⟨he ▸ hfrom, ⟨e, he, hcopy e rfl⟩, hrows⟩

variable (rows) in
theorem exists_get_foldl_refreshTask {e : BackgroundTask} (h : tasks.get id = some e) :
    ∃ x, (rows.foldl refreshTask tasks).get id = some x := by
  rw [get_foldl_refreshTask_eq, h]
  exact exists_foldl_countStep (.inr ⟨e, rfl⟩)

end

end Octos.Tasks
