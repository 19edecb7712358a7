import Octos.Tasks.Rows

/-!
# Recovery after a crash

A process that starts takes the tasks of the one before from the ledger. It has no workers yet, so
`enable_persistence` settles what it finds open: it fails the orphans, parks those that can be taken
up again, and fails the pipeline nodes of an orphaned pipeline.

Orphans are told by their runtime state, and a task is active by its status. `apply_harness_event`
writes the two in separate rows: a `Failure` event first sets the runtime state to `Failed`, and
only then fails the task. A crash between the two rows leaves a task that the sweep takes for
settled and that nobody will settle.

## Main results

* `recovery_settles_iff`: recovery returns, and settles every task iff none is stranded
* `crash_in_failure_event_strands`: a crash inside a `Failure` event
-/

namespace Octos.Tasks

open Bool List Table

/-! ## What the ledger says -/

/-- The row of a task that counts: the first, until one advances it. -/
def countingRow (rows : List BackgroundTask) (id : TaskId) : Option BackgroundTask :=
  rows.foldl (countStep id) none

/-- The row of the task that counts is active with a terminal runtime state, and the task is not a
node of a tool call whose own task is an orphan. -/
def Stranded (rows : List BackgroundTask) (id : TaskId) : Prop :=
  ∃ t, countingRow rows id = some t ∧ t.status.isActive = true ∧
    isTerminalRuntimeState t.runtimeState = true ∧
    ¬ (t.isPipelineNode = true ∧ ∃ id' parent, countingRow rows id' = some parent ∧
      parent.toolCallId ≠ "" ∧ parent.toolCallId = t.toolCallId ∧ parent.isPipelineNode = false ∧
      isTerminalRuntimeState parent.runtimeState = false)

section

variable {rows : List BackgroundTask} {id : TaskId}

theorem get_loadPersistedTasks_eq (rows : List BackgroundTask) (id : TaskId) :
    (loadPersistedTasks rows).get id = countingRow rows id :=
  get_foldl_mergeTask_eq empty rows

theorem id_of_countingRow {t : BackgroundTask} (h : countingRow rows id = some t) : t.id = id := by
  rw [← get_loadPersistedTasks_eq] at h
  exact (get_loadPersistedTasks h).2.1

theorem get_merge_loadPersistedTasks (rows : List BackgroundTask) (id : TaskId) :
    ((loadPersistedTasks rows).values.foldl mergeTask empty).get id = countingRow rows id := by
  rw [← get_loadPersistedTasks_eq]
  have hfrom : ∀ x, ((loadPersistedTasks rows).values.foldl mergeTask empty).get id = some x →
      (loadPersistedTasks rows).get id = some x := by
    intro x hx
    rcases (get_foldl_mergeTask hx).1 with hempty | ⟨hmem, hid⟩
    · cases hempty
    · obtain ⟨k, hk⟩ := mem_values.mp hmem
      rwa [← hid, (get_loadPersistedTasks hk).2.1]
  cases hl : (loadPersistedTasks rows).get id with
  | none =>
    cases hx : ((loadPersistedTasks rows).values.foldl mergeTask empty).get id with
    | none => rfl
    | some x =>
      have hl' := hfrom x hx
      rw [hl] at hl'
      cases hl'
  | some l =>
    have hvalue : l ∈ (loadPersistedTasks rows).values := mem_values.mpr ⟨id, hl⟩
    obtain ⟨x, hx⟩ := exists_get_foldl_mergeTask empty (loadPersistedTasks rows).values
      (.inl ⟨l, hvalue, (get_loadPersistedTasks hl).2.1⟩)
    rw [hx, ← hfrom x hx, hl]

end

/-! ## Settling -/

/-- The section will settle the task, or put a section on the agenda that does. -/
def Act.Settles (t : BackgroundTask) : Act → Prop
  | .mark id (.failed _ _) => id = t.id
  | .mark id (.parked _) => id = t.id
  | .markDescendantsFailed toolCallId _ =>
    toolCallId ≠ "" ∧ t.toolCallId = toolCallId ∧ t.isPipelineNode = true
  | _ => False

/-- The sections of a sweep and what follows from them; their texts can be read, so none panics. -/
def Act.Sweeps (cfg : Config) : Act → Prop
  | .mark _ (.failed error _) => Readable cfg.lower error
  | .mark _ (.parked _) => True
  | .persist _ => True
  | .persistById _ => True
  | .notifyFailure task => Readable cfg.lower (task.error.getD "")
  | .invokeFailureCallback _ => True
  | .markDescendantsFailed _ reason => Readable cfg.lower reason
  | _ => False

section

variable {cfg : Config} {r : Reading} {w : World} {a : Act}

/-- What a section of the sweep does: it does not panic, an active task that it leaves is as it was
and still due if it was, and a task that it does not settle stays, and is not due. -/
structure Tidied (cfg : Config) (w : World) (a : Act) (out : World × Option (List Act)) : Prop where
  sweeps : ∃ new, out.2 = some new ∧ ∀ b ∈ new, b.Sweeps cfg
  due : ∀ id t, out.1.getTask id = some t → t.status.isActive = true →
    w.getTask id = some t ∧ (a.Settles t → ∃ b ∈ out.2.getD [], b.Settles t)
  kept : ∀ id t, w.getTask id = some t → t.status.isActive = true → ¬ a.Settles t →
    out.1.getTask id = some t ∧ ∀ b ∈ out.2.getD [], ¬ b.Settles t

theorem tidied_of_tasks {out : World × Option (List Act)} {new : List Act}
    (htasks : out.1.supervisor.tasks = w.supervisor.tasks) (hnew : out.2 = some new)
    (hsweeps : ∀ b ∈ new, b.Sweeps cfg) (hsettles : ∀ t, ¬ a.Settles t)
    (hquiet : ∀ b ∈ new, ∀ t, ¬ b.Settles t) : Tidied cfg w a out := by
  have hget : ∀ id, out.1.getTask id = w.getTask id := fun id => by
    rw [World.getTask, htasks]
    rfl
  refine ⟨⟨new, hnew, hsweeps⟩, fun id t ht _ => ⟨hget id ▸ ht, fun h => absurd h (hsettles t)⟩,
    fun id t ht _ _ => ⟨(hget id).trans ht, fun b hb => ?_⟩⟩
  rw [hnew] at hb
  exact hquiet b hb t

variable {t t' : BackgroundTask} {id : TaskId} {m : Mark} {now : ℕ}

section

variable (hm : (Act.mark id m).Sweeps cfg)
include hm

theorem sweeps_followUp (happly : m.apply now t = some t') {b : Act} (hb : b ∈ m.followUp t t') :
    b.Sweeps cfg ∧ ∀ x, ¬ b.Settles x := by
  cases m with
  | failed =>
    rcases mem_cons.mp hb with rfl | hb
    · exact ⟨trivial, fun _ h => h⟩
    · split_ifs at hb
      · cases hb
      · rw [mem_singleton.mp hb]
        refine ⟨?_, fun _ h => h⟩
        rw [Act.Sweeps, Mark.error_of_apply happly]
        exact hm
  | parked =>
    rw [mem_singleton.mp hb]
    exact ⟨trivial, fun _ h => h⟩
  | _ => exact absurd hm fun h => h

theorem not_isActive_of_sweeps (happly : m.apply now t = some t') :
    ¬ t'.status.isActive = true := by
  rw [(m.apply_status happly).1]
  cases m with
  | failed | parked => exact false_ne_true
  | _ => exact absurd hm fun h => h

theorem not_isActive_of_apply_none (happly : m.apply now t = none) :
    ¬ t.status.isActive = true := by
  cases m with
  | failed =>
    rw [Mark.apply, markFailedInner] at happly
    by_cases hguard : t.status = .cancelled ∨ t.status = .completed
    · rcases hguard with hstatus | hstatus
      · rw [hstatus]
        exact false_ne_true
      · rw [hstatus]
        exact false_ne_true
    · rw [if_neg hguard] at happly
      cases happly
  | parked =>
    rw [Mark.apply, markParked] at happly
    split_ifs at happly with hguard
    rw [TaskStatus.isActive_eq_false_of_isTerminal hguard]
    exact false_ne_true
  | _ => exact absurd hm fun h => h

theorem settles_mark : (Act.mark id m).Settles t ↔ id = t.id := by
  cases m with
  | failed | parked => exact Iff.rfl
  | _ => exact absurd hm fun h => h

theorem tidied_mark (hkeyed : ∀ id t, w.getTask id = some t → t.id = id) :
    Tidied cfg w (.mark id m) (perform cfg r w (.mark id m)) := by
  rw [perform]
  rcases markSection_cases w id m with ⟨hsame, hstops⟩ | ⟨t₀, t', hget, happly, hmark⟩
  · rw [hsame]
    refine ⟨⟨[], rfl, fun b hb => by cases hb⟩, fun k t ht hactive => ⟨ht, fun h => ?_⟩,
      fun k t ht _ _ => ⟨ht, fun b hb => by cases hb⟩⟩
    -- the copy that the transition did not go through for is not active
    obtain rfl : id = k := ((settles_mark hm).mp h).trans (hkeyed k t ht)
    exact absurd hactive (not_isActive_of_apply_none hm (hstops t ht))
  · rw [hmark]
    refine ⟨⟨_, rfl, fun b hb => (sweeps_followUp hm happly hb).1⟩, fun k t ht hactive => ?_,
      fun k t ht _ hother => ?_⟩
    · rw [getTask_setTasks, get_insert] at ht
      split_ifs at ht with hk
      · cases ht
        exact absurd hactive (not_isActive_of_sweeps hm happly)
      · refine ⟨ht, fun h => absurd ?_ hk⟩
        rw [← hkeyed k t ht, (settles_mark hm).mp h]
    · rw [settles_mark hm, hkeyed k t ht] at hother
      rw [getTask_setTasks, get_insert_of_ne _ _ fun h => hother h.symm]
      exact ⟨ht, fun b hb => (sweeps_followUp hm happly hb).2 t⟩

end

theorem settles_failEach {error : String} {tasks : List BackgroundTask} :
    (∃ b ∈ failEach error tasks, b.Settles t) ↔ ∃ x ∈ tasks, x.id = t.id := by
  constructor
  · rintro ⟨b, hb, hsettles⟩
    obtain ⟨x, hx, rfl⟩ := mem_map.mp hb
    exact ⟨x, hx, hsettles⟩
  · rintro ⟨x, hx, hid⟩
    exact ⟨_, mem_map_of_mem hx, hid⟩

theorem exists_mem_activeDescendants (hkeyed : ∀ id t, w.getTask id = some t → t.id = id)
    (ht : w.getTask id = some t) (hactive : t.status.isActive = true) (toolCallId : String) :
    (∃ x ∈ activeDescendants w r toolCallId, x.id = t.id) ↔
      t.toolCallId = toolCallId ∧ t.isPipelineNode = true := by
  constructor
  · rintro ⟨x, hx, hid⟩
    obtain ⟨hwalk, hnode⟩ := mem_filter.mp hx
    obtain ⟨k, hk⟩ := mem_walkTasks.mp hwalk
    obtain rfl : k = id := by rw [← hkeyed k x hk, hid, hkeyed id t ht]
    obtain rfl : x = t := Option.some.inj (hk.symm.trans ht)
    simp only [and_eq_true, decide_eq_true_eq] at hnode
    exact ⟨hnode.1.1, hnode.2⟩
  · rintro ⟨hcall, hnode⟩
    refine ⟨t, mem_filter.mpr ⟨mem_walkTasks.mpr ⟨id, ht⟩, ?_⟩, rfl⟩
    simp [hcall, hactive, hnode]

theorem tidied_markDescendantsFailed {toolCallId reason : String}
    (hreason : Readable cfg.lower reason)
    (hkeyed : ∀ id t, w.getTask id = some t → t.id = id) :
    Tidied cfg w (.markDescendantsFailed toolCallId reason)
      (perform cfg r w (.markDescendantsFailed toolCallId reason)) := by
  rw [perform]
  split_ifs with hempty
  · exact tidied_of_tasks rfl rfl (fun b hb => by cases hb) (fun t h => h.1 hempty)
      fun b hb => by cases hb
  · refine ⟨⟨_, rfl, fun b hb => ?_⟩, fun id t ht hactive => ⟨ht, fun h => ?_⟩,
      fun id t ht hactive hother => ⟨ht, fun b hb hsettles => hother ?_⟩⟩
    · obtain ⟨x, -, rfl⟩ := mem_map.mp hb
      exact hreason
    · exact settles_failEach.mpr
        ((exists_mem_activeDescendants hkeyed ht hactive toolCallId).mpr h.2)
    · exact ⟨hempty, (exists_mem_activeDescendants hkeyed ht hactive toolCallId).mp
        (settles_failEach.mp ⟨b, hb, hsettles⟩)⟩

theorem sweeps_notifyFailure {task : BackgroundTask} (h : Readable cfg.lower (task.error.getD "")) :
    ∃ new, (notifyFailure cfg w task).2 = some new ∧
      ∀ b ∈ new, b.Sweeps cfg ∧ ∀ t, ¬ b.Settles t := by
  rw [notifyFailure]
  split_ifs
  · exact ⟨[], rfl, fun b hb => by cases hb⟩
  · obtain ⟨alternatives, halternatives⟩ := isSome_parseAlternatives.mpr h
    rw [halternatives]
    refine ⟨_, rfl, fun b hb => ?_⟩
    rw [signalOrDefer] at hb
    split_ifs at hb
    · cases hb
    · rw [emitSignal] at hb
      split_ifs at hb
      · rw [mem_singleton.mp hb]
        exact ⟨trivial, fun _ h => h⟩
      · cases hb
    · cases hb

/-- **A section of the sweep settles what it is due to settle, and nothing else.** -/
theorem tidied_perform (ha : a.Sweeps cfg) (hkeyed : ∀ id t, w.getTask id = some t → t.id = id) :
    Tidied cfg w a (perform cfg r w a) := by
  cases a with
  | mark => exact tidied_mark ha hkeyed
  | markDescendantsFailed => exact tidied_markDescendantsFailed ha hkeyed
  | persist row =>
    exact tidied_of_tasks (tasks_persistSnapshot row) rfl (fun b hb => by cases hb)
      (fun _ h => h) fun b hb => by cases hb
  | persistById =>
    refine tidied_of_tasks rfl rfl (fun b hb => ?_) (fun _ h => h) fun b hb t => ?_
    · obtain ⟨row, -, rfl⟩ := mem_map.mp hb
      trivial
    · obtain ⟨row, -, rfl⟩ := mem_map.mp hb
      exact fun h => h
  | notifyFailure task =>
    obtain ⟨new, hnew, hsweeps⟩ := sweeps_notifyFailure ha
    exact tidied_of_tasks (notifyFailure_keeps cfg w task).1 hnew
      (fun b hb => (hsweeps b hb).1) (fun _ h => h) fun b hb => (hsweeps b hb).2
  | invokeFailureCallback =>
    exact tidied_of_tasks rfl rfl (fun b hb => by cases hb) (fun _ h => h)
      fun b hb => by cases hb
  | _ => exact absurd ha fun h => h

end

/-! ## The sweep -/

section

variable {cfg : Config} {r : Reading} {w : World} {rows : List BackgroundTask}

theorem isOrphan_of_live_nil (hlive : w.process.live = []) (t : BackgroundTask) :
    isOrphan w t = !isTerminalRuntimeState t.runtimeState := by
  have hdead : ∀ id, w.isTaskLive id = false := fun id => by
    rw [World.isTaskLive, hlive]
    rfl
  simp [isOrphan, hdead]

theorem settles_sweepAct {t x : BackgroundTask} : (sweepAct x).Settles t ↔ x.id = t.id := by
  rw [sweepAct]
  split_ifs <;> exact Iff.rfl

variable {b : Act}

theorem mem_sweepActs : b ∈ sweepActs w r ↔
    (∃ id x, w.getTask id = some x ∧ isOrphan w x = true ∧ b = sweepAct x) ∨
    ∃ id x, w.getTask id = some x ∧ isOrphan w x = true ∧ x.toolCallId ≠ "" ∧
      x.isPipelineNode = false ∧
      b = .markDescendantsFailed x.toolCallId "parent task orphaned across restart" := by
  simp only [sweepActs, mem_append, mem_map, mem_eraseDups, mem_filter, mem_walkTasks]
  constructor
  · rintro (⟨x, ⟨⟨id, hget⟩, horphan⟩, rfl⟩ | ⟨_, ⟨x, ⟨⟨⟨id, hget⟩, horphan⟩, hparent⟩, rfl⟩, rfl⟩)
    · exact .inl ⟨id, x, hget, horphan, rfl⟩
    · simp only [and_eq_true, decide_eq_true_eq, not_eq_true'] at hparent
      exact .inr ⟨id, x, hget, horphan, hparent.1, hparent.2, rfl⟩
  · rintro (⟨id, x, hget, horphan, rfl⟩ | ⟨id, x, hget, horphan, hcall, hnode, rfl⟩)
    · exact .inl ⟨x, ⟨⟨id, hget⟩, horphan⟩, rfl⟩
    · exact .inr ⟨_, ⟨x, ⟨⟨⟨id, hget⟩, horphan⟩, by simp [hcall, hnode]⟩, rfl⟩, rfl⟩

theorem sweeps_sweepActs (hb : b ∈ sweepActs w r) : b.Sweeps cfg := by
  rcases mem_sweepActs.mp hb with ⟨-, x, -, -, rfl⟩ | ⟨-, x, -, -, -, -, rfl⟩
  · rw [sweepAct]
    split_ifs
    · trivial
    · exact readable_of_ascii cfg.lower (by decide +kernel) (by decide +kernel)
  · exact readable_of_ascii cfg.lower (by decide +kernel) (by decide +kernel)

/-- **The sweep is due to settle an active task exactly if it is not stranded.** -/
theorem sweep_settles_iff (hlive : w.process.live = [])
    (htasks : ∀ id, w.getTask id = countingRow rows id) {id : TaskId} {t : BackgroundTask}
    (ht : w.getTask id = some t) (hactive : t.status.isActive = true) :
    (∃ b ∈ sweepActs w r, b.Settles t) ↔ ¬ Stranded rows id := by
  have hkeyed : ∀ {k x}, w.getTask k = some x → x.id = k :=
    fun h => id_of_countingRow (htasks _ ▸ h)
  constructor
  · rintro ⟨b, hb, hsettles⟩ ⟨t', ht', -, hruntime, hparent⟩
    obtain rfl : t' = t := Option.some.inj (ht'.symm.trans ((htasks id).symm.trans ht))
    rcases mem_sweepActs.mp hb with
      ⟨k, x, hx, horphan, rfl⟩ | ⟨k, x, hx, horphan, hcall, hnode, rfl⟩
    · -- an orphan with the id of the task is the task
      rw [settles_sweepAct, hkeyed hx, hkeyed ht] at hsettles
      subst hsettles
      obtain rfl : x = t' := Option.some.inj (hx.symm.trans ht)
      rw [isOrphan_of_live_nil hlive, hruntime] at horphan
      cases horphan
    · -- a pipeline that fails its nodes: the task is one of them
      rw [isOrphan_of_live_nil hlive, not_eq_true'] at horphan
      exact hparent ⟨hsettles.2.2, k, x, htasks k ▸ hx, hcall, hsettles.2.1.symm, hnode, horphan⟩
  · intro hfree
    by_cases hruntime : isTerminalRuntimeState t.runtimeState = true
    · -- not an orphan itself, so a node of an orphaned pipeline
      have hcovered : t.isPipelineNode = true ∧ ∃ id' parent, countingRow rows id' = some parent ∧
          parent.toolCallId ≠ "" ∧ parent.toolCallId = t.toolCallId ∧
            parent.isPipelineNode = false ∧
          isTerminalRuntimeState parent.runtimeState = false := by
        by_contra hparent
        exact hfree ⟨t, htasks id ▸ ht, hactive, hruntime, hparent⟩
      obtain ⟨hnode, k, parent, hk, hcall, hsame, hparent, hopen⟩ := hcovered
      have horphan : isOrphan w parent = true := by
        rw [isOrphan_of_live_nil hlive, hopen]
        rfl
      exact ⟨_,
        mem_sweepActs.mpr (.inr ⟨k, parent, (htasks k).trans hk, horphan, hcall, hparent, rfl⟩),
        hcall, hsame.symm, hnode⟩
    · have horphan : isOrphan w t = true := by
        rw [isOrphan_of_live_nil hlive, not_eq_true', ← not_eq_true]
        exact hruntime
      exact ⟨_, mem_sweepActs.mpr (.inl ⟨id, t, ht, horphan, rfl⟩), settles_sweepAct.mpr rfl⟩

end

/-! ## The phases of recovery -/

/-- The agendas between the merge and the sweep. -/
inductive Preparation : List Act → Prop
  | install (restoredWon : List TaskId) : Preparation [.enableInstall restoredWon]
  | snapshot (restoredWon : List TaskId) : Preparation [.enableSnapshot restoredWon]
  | persist (copies : List BackgroundTask) : Preparation (copies.map .persist ++ [.sweepOrphans])

/-- `enable_persistence` in a new process: the ledger is loaded and merged, what has been restored
stays as it is until the sweep, and from then on an active task is due exactly if it is not
stranded. -/
inductive Recovering (cfg : Config) (rows : List BackgroundTask) : World × List Act → Prop
  | loading {w : World} (hledger : w.process.ledger = rows) (hlive : w.process.live = [])
      (htasks : w.supervisor.tasks = empty) (hpath : w.supervisor.persistent = false) :
      Recovering cfg rows (w, [.enablePersistence])
  | merging {w : World} (hlive : w.process.live = []) (htasks : w.supervisor.tasks = empty) :
      Recovering cfg rows (w, [.enableMerge (loadPersistedTasks rows)])
  | restored {w : World} {agenda : List Act} (hlive : w.process.live = [])
      (htasks : ∀ id, w.getTask id = countingRow rows id) (hagenda : Preparation agenda) :
      Recovering cfg rows (w, agenda)
  | settling {w : World} {agenda : List Act} (hkeyed : ∀ id t, w.getTask id = some t → t.id = id)
      (hsweeps : ∀ a ∈ agenda, a.Sweeps cfg)
      (hkept : ∀ id, Stranded rows id → ∃ t, w.getTask id = some t ∧ t.status.isActive = true ∧
        ∀ a ∈ agenda, ¬ a.Settles t)
      (hdue : ∀ id t, ¬ Stranded rows id → w.getTask id = some t → t.status.isActive = true →
        ∃ a ∈ agenda, a.Settles t) :
      Recovering cfg rows (w, agenda)

section

variable {cfg : Config} {rows : List BackgroundTask} {w : World} {agenda rest : List Act} {a : Act}

theorem Recovering.sweep (cfg : Config) (r : Reading) (hlive : w.process.live = [])
    (htasks : ∀ id, w.getTask id = countingRow rows id) :
    Recovering cfg rows (w, sweepActs w r) := by
  refine .settling (fun id t ht => id_of_countingRow (htasks id ▸ ht))
    (fun a ha => sweeps_sweepActs ha)
    (fun id hstranded => ?_) fun id t hfree ht hactive => ?_
  · have hrow := hstranded
    obtain ⟨t, hrow, hactive, -⟩ := hrow
    have ht : w.getTask id = some t := (htasks id).trans hrow
    refine ⟨t, ht, hactive, fun a ha hsettles => ?_⟩
    exact (sweep_settles_iff hlive htasks ht hactive).mp ⟨a, ha, hsettles⟩ hstranded
  · exact (sweep_settles_iff hlive htasks ht hactive).mpr hfree

theorem Recovering.settle (r : Reading) (hkeyed : ∀ id t, w.getTask id = some t → t.id = id)
    (hsweeps : ∀ b ∈ a :: rest, b.Sweeps cfg)
    (hkept : ∀ id, Stranded rows id → ∃ t, w.getTask id = some t ∧ t.status.isActive = true ∧
      ∀ b ∈ a :: rest, ¬ b.Settles t)
    (hdue : ∀ id t, ¬ Stranded rows id → w.getTask id = some t → t.status.isActive = true →
      ∃ b ∈ a :: rest, b.Settles t) :
    Recovering cfg rows ((perform cfg r w a).1, resume rest (perform cfg r w a).2) := by
  have htidied := tidied_perform (r := r) (hsweeps a mem_cons_self) hkeyed
  obtain ⟨new, hnew, hnewSweeps⟩ := htidied.sweeps
  have hresume : resume rest (perform cfg r w a).2 = new ++ rest := by
    rw [hnew]
    rfl
  rw [hresume]
  refine .settling (keyed_perform hkeyed) (fun b hb => ?_) (fun id hstranded => ?_)
    fun id t hfree ht hactive => ?_
  · rcases mem_append.mp hb with hb | hb
    · exact hnewSweeps b hb
    · exact hsweeps b (mem_cons_of_mem _ hb)
  · obtain ⟨t, ht, hactive, hnone⟩ := hkept id hstranded
    obtain ⟨ht', hnew'⟩ := htidied.kept id t ht hactive (hnone a mem_cons_self)
    refine ⟨t, ht', hactive, fun b hb => ?_⟩
    rcases mem_append.mp hb with hb | hb
    · exact hnew' b (by rw [hnew]; exact hb)
    · exact hnone b (mem_cons_of_mem _ hb)
  · obtain ⟨ht', hsettles⟩ := htidied.due id t ht hactive
    obtain ⟨b, hb, hb'⟩ := hdue id t hfree ht' hactive
    rcases mem_cons.mp hb with rfl | hb
    · obtain ⟨c, hc, hc'⟩ := hsettles hb'
      rw [hnew] at hc
      exact ⟨c, mem_append_left _ hc, hc'⟩
    · exact ⟨b, mem_append_right _ hb, hb'⟩

/-- **Recovery goes from phase to phase.** -/
theorem Recovering.step {s : World × List Act} (h : Recovering cfg rows s) (r : Reading) :
    Recovering cfg rows (soloStep (exec cfg) s r) := by
  cases h with
  | @loading w hledger hlive htasks hpath =>
    have hload : exec cfg r w .enablePersistence =
        (w.advance r.tick, some [.enableMerge (loadPersistedTasks rows)]) := by
      rw [exec, perform, ← hledger]
      simp [World.advance, hpath]
    rw [soloStep_cons, hload]
    exact .merging hlive htasks
  | @merging w hlive htasks =>
    refine .restored hlive (fun id => ?_) (.install _)
    rw [← get_merge_loadPersistedTasks rows id, ← htasks]
    rfl
  | @restored w agenda hlive htasks hagenda =>
    cases hagenda with
    | install => exact .restored hlive htasks (.snapshot _)
    | snapshot restoredWon =>
      refine .restored hlive htasks ?_
      rw [show resume [] (exec cfg r w (.enableSnapshot restoredWon)).2 =
        snapshotActs (w.advance r.tick) r restoredWon from append_nil _]
      exact .persist _
    -- One snapshot after the other, and then the sweep.
    | persist copies =>
      cases copies with
      | nil =>
        have hsweep := Recovering.sweep (w := w.advance r.tick) cfg r hlive htasks
        rwa [← append_nil (sweepActs _ r)] at hsweep
      | cons copy copies =>
        refine .restored ?_ (fun id => ?_) (.persist copies)
        · rw [exec, perform, World.persistSnapshot]
          split_ifs
          · exact hlive
          · exact hlive
        · rw [exec, perform, World.getTask, tasks_persistSnapshot]
          exact htasks id
  | @settling w agenda hkeyed hsweeps hkept hdue =>
    cases agenda with
    | nil => exact .settling hkeyed hsweeps hkept hdue
    | cons => exact Recovering.settle r hkeyed hsweeps hkept hdue

end

/-! ## Recovery -/

/-- `enable_persistence` on a ledger, by a new supervisor in a new process, after some of its
sections. -/
def restart (cfg : Config) (rows : List BackgroundTask) (clock : ℕ) (nextId : TaskId)
    (readings : ℕ → Reading) (n : ℕ) : World × List Act :=
  runSteps (soloStep (exec cfg))
    (⟨Supervisor.new, ⟨rows, [], clock, nextId⟩⟩, Call.enablePersistence.start)
    ((List.range n).map readings)

theorem recovering_restart (cfg : Config) (rows : List BackgroundTask) (clock : ℕ) (nextId : TaskId)
    (readings : ℕ → Reading) (n : ℕ) :
    Recovering cfg rows (restart cfg rows clock nextId readings n) :=
  (guarded_of_forall _ fun _ _ => trivial).invariant (fun _ r h _ => h.step r)
    (.loading rfl rfl rfl rfl)

theorem isTerminal_or_parked {s : TaskStatus} : (s.isTerminal = true ∨ s = .parked) ↔
    ¬ s.isActive = true := by
  cases s <;> simp [TaskStatus.isTerminal, TaskStatus.isActive]

/-- **Recovery settles every task exactly when none is stranded.** Whatever its sections meet it
returns, and then every restored task has a terminal status or is parked if and only if in the
ledger no active task with a terminal runtime state is out of reach of the sweep. -/
theorem recovery_settles_iff (cfg : Config) (rows : List BackgroundTask) (clock : ℕ)
    (nextId : TaskId)
    (readings : ℕ → Reading) :
    (∃ n, (restart cfg rows clock nextId readings n).2 = []) ∧
    ∀ n, (restart cfg rows clock nextId readings n).2 = [] →
      ((∀ id t, (restart cfg rows clock nextId readings n).1.getTask id = some t →
        t.status.isTerminal = true ∨ t.status = .parked) ↔ ∀ id, ¬ Stranded rows id) := by
  refine ⟨call_finishes cfg readings .., fun n hdone => ?_⟩
  have hphase := recovering_restart cfg rows clock nextId readings n
  simp only [isTerminal_or_parked]
  generalize restart cfg rows clock nextId readings n = s at hdone hphase ⊢
  cases hphase with
  | loading | merging => cases hdone
  | restored _ _ hagenda =>
    cases hagenda with
    | install | snapshot => cases hdone
    | persist => exact absurd hdone (append_ne_nil_of_right_ne_nil _ (cons_ne_nil _ _))
  | settling _ _ hkept hdue =>
    -- with nothing left on the agenda nothing is due
    cases hdone
    constructor
    · intro hsettled id hstranded
      obtain ⟨t, ht, hactive, -⟩ := hkept id hstranded
      exact hsettled id t ht hactive
    · intro hfree id t ht hactive
      obtain ⟨a, ha, -⟩ := hdue id t (hfree id) ht hactive
      cases ha

/-- A task is registered and runs, and a `Failure` event gets as far as the row of its runtime
state. -/
def crashInFailureEvent : List (Move Call Reading) :=
  Move.alone 0 .enablePersistence (Reading.after 1) 5 ++
    Move.alone 1 (.register (detached "tc")) (Reading.after 1) 4 ++
    Move.alone 2 (.mark 0 .running) (Reading.after 1) 2 ++
    Move.alone 3 (.applyHarnessEvent 0 (.failure "out of disk")) (Reading.after 1) 3

/-- **A crash inside a `Failure` event strands the task**: recovery on the ledger of that run
returns and leaves the task `Running`. -/
theorem crash_in_failure_event_strands :
    let cfg := configOf 1 Nat.one_pos
    let crashed := (runSteps (step cfg) initial crashInFailureEvent).shared
    let recovered := restart cfg crashed.process.ledger 100 1 (fun _ => Reading.after 1) 5
    recovered.2 = [] ∧ (recovered.1.getTask 0).map (·.status) = some .running := by
  decide +kernel

end Octos.Tasks
