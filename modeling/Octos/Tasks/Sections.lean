import Octos.Tasks.Supervisor

/-!
# What a section can do

The cases of a critical section, said once: what it does to the table of the tasks, and which
sections it leaves to its thread. What holds in every run is derived from these, and no proof after
this module goes through the sections one by one.
-/

namespace Octos.Tasks

open List

/-! ## The table -/

section

variable {cfg : Config} {r : Reading} {w : World} {id : TaskId}

@[simp] theorem getTask_setTasks (tasks : Table TaskId BackgroundTask) :
    (w.setTasks tasks).getTask id = tasks.get id := rfl

theorem markSection_cases (w : World) (id : TaskId) (m : Mark) :
    ((markSection w id m) = (w, []) ∧
      ∀ t, w.getTask id = some t → m.apply w.process.clock t = none) ∨
    ∃ t t', w.getTask id = some t ∧ m.apply w.process.clock t = some t' ∧
      markSection w id m = (w.setTasks (w.supervisor.tasks.insert id t'), m.followUp t t') := by
  rw [markSection]
  cases hget : w.getTask id with
  | none =>
    refine .inl ⟨rfl, fun t ht => ?_⟩
    cases ht
  | some t =>
    cases happly : m.apply w.process.clock t with
    | none =>
      refine .inl ⟨?_, fun t' ht' => ?_⟩
      · dsimp only
        rw [happly]
      · cases ht'
        exact happly
    | some t' =>
      refine .inr ⟨t, t', rfl, happly, ?_⟩
      dsimp only
      rw [happly]

theorem registerInsert_cases (w : World) (r : Reading) (req : Registration) :
    (∃ error, registerInsert w r req = (w, [.refuse error])) ∨
    registerInsert w r req =
      (enterTask
        (bif req.requirePersistence then
          w.persistSnapshot r (newTask w.process.nextId w.process.clock req) else w)
        (newTask w.process.nextId w.process.clock req),
        bif req.requirePersistence then [] else [.persistById w.process.nextId]) := by
  rw [registerInsert]
  cases parentEnded w r req with
  | some error => exact .inl ⟨error, rfl⟩
  | none =>
    cases req.requirePersistence with
    | false => exact .inr rfl
    | true =>
      simp only [if_true, cond_true]
      split_ifs
      · exact .inl ⟨_, rfl⟩
      · exact .inr rfl

theorem tasks_persistSnapshot (row : BackgroundTask) :
    (w.persistSnapshot r row).supervisor.tasks = w.supervisor.tasks := by
  rw [World.persistSnapshot]
  split_ifs <;> rfl

theorem tasks_enterTask (w : World) (t : BackgroundTask) :
    (enterTask w t).supervisor.tasks = w.supervisor.tasks.insert t.id t := rfl

theorem emitSignal_keeps (w : World) (signal : SpawnOnlyFailureSignal) :
    (emitSignal w signal).1.supervisor.tasks = w.supervisor.tasks ∧
      (emitSignal w signal).1.process = w.process := by
  rw [emitSignal]
  split_ifs <;> exact ⟨rfl, rfl⟩

theorem notifyFailure_keeps (cfg : Config) (w : World) (t : BackgroundTask) :
    (notifyFailure cfg w t).1.supervisor.tasks = w.supervisor.tasks ∧
      (notifyFailure cfg w t).1.process = w.process := by
  rw [notifyFailure]
  split_ifs
  · exact ⟨rfl, rfl⟩
  · split
    · exact ⟨rfl, rfl⟩
    · rw [signalOrDefer]
      split_ifs
      · exact ⟨rfl, rfl⟩
      · exact emitSignal_keeps w _
      · exact ⟨rfl, rfl⟩

theorem markSynthAckEmitted_keeps (w : World) (r : Reading) (toolCallId : String) :
    (markSynthAckEmitted w r toolCallId).1.supervisor.tasks = w.supervisor.tasks ∧
      (markSynthAckEmitted w r toolCallId).1.process = w.process := by
  rw [markSynthAckEmitted]
  split_ifs <;> exact ⟨rfl, rfl⟩

/-- The sections that merge rows of the ledger. -/
def Act.merges : Act → Bool
  | .enableMerge _ => true
  | .refreshMerge _ => true
  | .refreshTaskMerge _ => true
  | _ => false

/-- **What a section does to the table**: nothing, a transition, a registration, or a merge. -/
theorem tasks_perform (cfg : Config) (r : Reading) (w : World) (a : Act) :
    (perform cfg r w a).1.supervisor.tasks = w.supervisor.tasks ∨
    (∃ id m t t', a = .mark id m ∧ w.getTask id = some t ∧ m.apply w.process.clock t = some t' ∧
      perform cfg r w a = (w.setTasks (w.supervisor.tasks.insert id t'), some (m.followUp t t'))) ∨
    (∃ req, a = .registerInsert req ∧
      (perform cfg r w a).1.supervisor.tasks = w.supervisor.tasks.insert w.process.nextId
        (newTask w.process.nextId w.process.clock req) ∧
      (perform cfg r w a).1.process.nextId = w.process.nextId + 1) ∨
    a.merges = true := by
  cases a with
  | mark id m =>
    rcases markSection_cases w id m with ⟨hsame, -⟩ | ⟨t, t', hget, happly, hmark⟩
    · exact .inl (by rw [perform, hsame])
    · exact .inr (.inl ⟨id, m, t, t', rfl, hget, happly, by rw [perform, hmark]⟩)
  | persist row => exact .inl (tasks_persistSnapshot row)
  | registerInsert req =>
    rcases registerInsert_cases w r req with ⟨error, hsame⟩ | henter
    · exact .inl (by rw [perform, hsame])
    · refine .inr (.inr (.inl ⟨req, rfl, ?_⟩))
      rw [perform, henter]
      refine ⟨?_, rfl⟩
      rw [tasks_enterTask]
      cases req.requirePersistence with
      | false => rfl
      | true =>
        rw [cond_true, tasks_persistSnapshot]
        rfl
  | enableMerge | refreshMerge | refreshTaskMerge =>
    exact .inr (.inr (.inr rfl))
  | markSynthAckEmitted toolCallId => exact .inl (markSynthAckEmitted_keeps w r toolCallId).1
  | notifyFailure task => exact .inl (notifyFailure_keeps cfg w task).1
  | dispatchFailureSignal signal => exact .inl (emitSignal_keeps w signal).1
  | _ => exact .inl rfl

end

/-! ## What a section leaves -/

/-- The sections that fail tasks one after another. -/
def Act.failsTasks : Act → Bool
  | .applyHarnessEvent _ _ => true
  | .reapStuckTasks _ _ => true
  | .markDescendantsFailed _ _ => true
  | .guardCheck _ => true
  | .registerFailChildren _ _ => true
  | .sweepOrphans => true
  | _ => false

/-- The sections that can refuse a registration. -/
def Act.refuses : Act → Bool
  | .register _ => true
  | .registerCount _ _ => true
  | .registerFailChildren _ _ => true
  | .registerInsert _ => true
  | _ => false

/-- The sections that a section can leave to its thread. -/
inductive Follows (cfg : Config) (w : World) : Act → Act → Prop
  -- a transition that went through
  | snapshot {id : TaskId} {m : Mark} {t t' : BackgroundTask} (hget : w.getTask id = some t)
      (happly : m.apply w.process.clock t = some t') : Follows cfg w (.mark id m) (.persist t')
  | parked {id : TaskId} {m : Mark} {t' : BackgroundTask} :
      Follows cfg w (.mark id m) (.persistById t'.id)
  | drain {id : TaskId} {m : Mark} {t t' : BackgroundTask} (hget : w.getTask id = some t)
      (happly : m.apply w.process.clock t = some t')
      (hm : (∃ files, m = .completed files) ∨ m = .cancelled) :
      Follows cfg w (.mark id m) (.drainPendingFailure t'.id)
  | notify {id : TaskId} {error : String} {observed : Bool} {t t' : BackgroundTask}
      (hget : w.getTask id = some t)
      (happly : (Mark.failed error observed).apply w.process.clock t = some t')
      (hfirst : t.status ≠ .failed) :
      Follows cfg w (.mark id (.failed error observed)) (.notifyFailure t')
  | copy {id : TaskId} {t : BackgroundTask} (hget : w.getTask id = some t) :
      Follows cfg w (.persistById id) (.persist t)
  -- tasks that are moved on or failed
  | runtimeState {id : TaskId} {event : HarnessEventPayload} {state : TaskRuntimeState}
      {detail : Option String} :
      Follows cfg w (.applyHarnessEvent id event) (.mark id (.runtimeState state detail))
  | fails {a : Act} {id : TaskId} {error : String} (ha : a.failsTasks = true) :
      Follows cfg w a (.mark id (.failed error false))
  -- signals
  | dispatch {toolCallId : String} {entry : TaskId × PendingFailure}
      (hentry : entry ∈ w.supervisor.ackAndPending.pending)
      (hcall : entry.2.toolCallId = toolCallId)
      (hname : toolCallId ≠ "") :
      Follows cfg w (.markSynthAckEmitted toolCallId) (.dispatchFailureSignal entry.2.signal)
  | invoke {task : BackgroundTask} {alternatives : List String}
      (hacked : task.toolCallId ∈ w.supervisor.ackAndPending.synthAckEmittedToolCallIds) :
      Follows cfg w (.notifyFailure task) (.invokeFailureCallback (failureSignal task alternatives))
  | deliver {signal : SpawnOnlyFailureSignal} :
      Follows cfg w (.dispatchFailureSignal signal) (.invokeFailureCallback signal)
  | check {id : TaskId} : Follows cfg w (.guardDrop id) (.guardCheck id)
  -- registration
  | gate {req : Registration} {key : String} (hkey : req.sessionKey = some key) :
      Follows cfg w (.register req) (.registerPoisoned key req)
  | insertDetached {req : Registration} (hkey : req.sessionKey = none) :
      Follows cfg w (.register req) (.registerInsert req)
  | refuse {a : Act} {error : RegisterTaskError} (ha : a.refuses = true) :
      Follows cfg w a (.refuse error)
  | refusePoisoned {key : String} {req : Registration} :
      Follows cfg w (.registerPoisoned key req) (.registerRefuse key)
  | count {key : String} {req : Registration} :
      Follows cfg w (.registerPoisoned key req) (.registerCount key req)
  | poison {key : String} {req : Registration} {n : ℕ} :
      Follows cfg w (.registerCount key req) (.registerPoison key n)
  | insertCounted {key : String} {req : Registration}
      (hroom : liveChildren w key < cfg.maxChildrenPerParent) :
      Follows cfg w (.registerCount key req) (.registerInsert req)
  | failChildren {key : String} {n : ℕ} :
      Follows cfg w (.registerPoison key n) (.registerFailChildren key n)
  | persistEntered {req : Registration} {id : TaskId} :
      Follows cfg w (.registerInsert req) (.persistById id)
  -- the ledger
  | merge : Follows cfg w .enablePersistence (.enableMerge (loadPersistedTasks w.process.ledger))
  | install {restored : Table TaskId BackgroundTask} {won : List TaskId} :
      Follows cfg w (.enableMerge restored) (.enableInstall won)
  | snapshots {won : List TaskId} : Follows cfg w (.enableInstall won) (.enableSnapshot won)
  | restored {won : List TaskId} {id : TaskId} {t : BackgroundTask} (hget : w.getTask id = some t) :
      Follows cfg w (.enableSnapshot won) (.persist t)
  | sweep {won : List TaskId} : Follows cfg w (.enableSnapshot won) .sweepOrphans
  | park {id : TaskId} {reason : String} : Follows cfg w .sweepOrphans (.mark id (.parked reason))
  | cascade {toolCallId reason : String} :
      Follows cfg w .sweepOrphans (.markDescendantsFailed toolCallId reason)
  | refresh :
      Follows cfg w .refreshFromPersistence (.refreshMerge (loadPersistedTasks w.process.ledger))
  | refreshTask {id : TaskId} : Follows cfg w (.refreshTaskFromPersistence id)
      (.refreshTaskMerge ((loadPersistedTasks w.process.ledger).get id))

section

variable {cfg : Config} {r : Reading} {w : World} {b : Act}

theorem Follows.only {a c : Act} (hc : Follows cfg w a c) (h : b ∈ [c]) : Follows cfg w a b := by
  rw [mem_singleton.mp h]
  exact hc

variable {id : TaskId}

theorem follows_markSection {m : Mark} (h : b ∈ (markSection w id m).2) :
    Follows cfg w (.mark id m) b := by
  rcases markSection_cases w id m with ⟨hsame, -⟩ | ⟨t, t', hget, happly, hmark⟩
  · rw [hsame] at h
    cases h
  · rw [hmark] at h
    cases m <;> simp only [Mark.followUp] at h
    case failed error observed =>
      rcases mem_cons.mp h with rfl | h
      · exact .snapshot hget happly
      · split_ifs at h with hfirst
        · cases h
        · exact .only (.notify hget happly hfirst) h
    case completed outputFiles =>
      rcases mem_pair.mp h with rfl | rfl
      · exact .snapshot hget happly
      · exact .drain hget happly (.inl ⟨outputFiles, rfl⟩)
    case cancelled =>
      rcases mem_pair.mp h with rfl | rfl
      · exact .snapshot hget happly
      · exact .drain hget happly (.inr rfl)
    case parked reason =>
      exact .only .parked h
    all_goals
      exact .only (.snapshot hget happly) h

variable {a : Act}

theorem follows_failEach {error : String} {tasks : List BackgroundTask}
    (ha : a.failsTasks = true) (h : b ∈ failEach error tasks) : Follows cfg w a b := by
  obtain ⟨t, -, rfl⟩ := mem_map.mp h
  exact .fails ha

theorem follows_harnessActs {event : HarnessEventPayload} {snapshot : BackgroundTask}
    (h : b ∈ harnessActs cfg id event snapshot) :
    Follows cfg w (.applyHarnessEvent id event) b := by
  cases event with
  | validatorResult =>
    rcases mem_cons.mp h with rfl | h
    · exact .runtimeState
    · split_ifs at h
      · cases h
      · exact .only (.fails rfl) h
  | failure =>
    rcases mem_pair.mp h with rfl | rfl
    · exact .runtimeState
    · exact .fails rfl
  | mcpServerCall => cases h
  | _ => exact .only .runtimeState h

theorem eq_invoke_of_mem_emitSignal {signal : SpawnOnlyFailureSignal}
    (h : b ∈ (emitSignal w signal).2) :
    b = .invokeFailureCallback signal := by
  rw [emitSignal] at h
  split_ifs at h
  · exact mem_singleton.mp h
  · cases h

theorem follows_notifyFailure {task : BackgroundTask}
    (h : b ∈ (notifyFailure cfg w task).2.getD []) :
    Follows cfg w (.notifyFailure task) b := by
  rw [notifyFailure] at h
  split_ifs at h
  · cases h
  · split at h
    · cases h
    · simp only [signalOrDefer, Option.getD_some] at h
      split_ifs at h with hemitted hacked
      · cases h
      · rw [eq_invoke_of_mem_emitSignal h]
        exact .invoke (contains_iff_mem.mp hacked)
      · cases h

theorem follows_markSynthAckEmitted {toolCallId : String}
    (h : b ∈ (markSynthAckEmitted w r toolCallId).2) :
    Follows cfg w (.markSynthAckEmitted toolCallId) b := by
  rw [markSynthAckEmitted] at h
  split_ifs at h with hname
  · cases h
  · obtain ⟨entry, hentry, rfl⟩ := mem_map.mp h
    obtain ⟨hmem, hcall⟩ := mem_filter.mp ((r.walkPending_perm _).mem_iff.mp hentry)
    exact .dispatch hmem (of_decide_eq_true hcall) hname

variable {req : Registration}

theorem follows_registerStart (h : b ∈ registerStart w r req) :
    Follows cfg w (.register req) b := by
  rw [registerStart] at h
  split at h
  · exact .only (.refuse rfl) h
  · cases hkey : req.sessionKey with
    | none =>
      rw [hkey] at h
      exact .only (.insertDetached hkey) h
    | some =>
      rw [hkey] at h
      exact .only (.gate hkey) h

theorem follows_registerCount {key : String} (h : b ∈ registerCount cfg w r key req) :
    Follows cfg w (.registerCount key req) b := by
  rw [registerCount] at h
  split at h
  · exact .only (.refuse rfl) h
  · split_ifs at h with hfull
    · exact .only .poison h
    · exact .only (.insertCounted (not_le.mp hfull)) h

theorem follows_registerInsert (h : b ∈ (registerInsert w r req).2) :
    Follows cfg w (.registerInsert req) b := by
  rcases registerInsert_cases w r req with ⟨error, hsame⟩ | henter
  · rw [hsame] at h
    exact .only (.refuse rfl) h
  · rw [henter] at h
    cases hdurable : req.requirePersistence with rw [hdurable] at h
    | false => exact .only .persistEntered h
    | true => cases h

theorem follows_sweepActs (h : b ∈ sweepActs w r) : Follows cfg w .sweepOrphans b := by
  rcases mem_append.mp h with h | h
  · obtain ⟨t, -, rfl⟩ := mem_map.mp h
    rw [sweepAct]
    split_ifs
    · exact .park
    · exact .fails rfl
  · obtain ⟨toolCallId, -, rfl⟩ := mem_map.mp h
    exact .cascade

theorem mem_walkTasks {t : BackgroundTask} : t ∈ w.walkTasks r ↔ ∃ id, w.getTask id = some t :=
  ((r.walk_perm _).mem_iff).trans Table.mem_values

/-- **What a section leaves to its thread.** -/
theorem follows_perform (h : b ∈ (perform cfg r w a).2.getD []) : Follows cfg w a b := by
  -- The sections that are named first leave nothing.
  cases a with
  | mark => exact follows_markSection h
  | persist row | invokeFailureCallback signal | drainPendingFailure id | markLive id
  | clearLive id | registerRefuse key | refuse error | refreshMerge restored
  | refreshTaskMerge => cases h
  | persistById =>
    obtain ⟨t, ht, rfl⟩ := mem_map.mp h
    exact .copy (Option.mem_toList.mp ht)
  | applyHarnessEvent id =>
    cases hget : w.getTask id with rw [perform, hget] at h
    | none => cases h
    | some => exact follows_harnessActs h
  | reapStuckTasks => exact follows_failEach rfl h
  | markDescendantsFailed =>
    rw [perform] at h
    split_ifs at h
    · cases h
    · exact follows_failEach rfl h
  | markSynthAckEmitted => exact follows_markSynthAckEmitted h
  | notifyFailure => exact follows_notifyFailure h
  | dispatchFailureSignal =>
    rw [eq_invoke_of_mem_emitSignal h]
    exact .deliver
  | guardDrop => exact .only .check h
  | guardCheck =>
    rw [perform] at h
    split_ifs at h
    · exact .only (.fails rfl) h
    · cases h
  | register => exact follows_registerStart h
  | registerPoisoned =>
    rw [perform] at h
    split_ifs at h
    · exact .only .refusePoisoned h
    · exact .only .count h
  | registerCount => exact follows_registerCount h
  | registerPoison => exact .only .failChildren h
  | registerFailChildren =>
    rcases mem_append.mp h with h | h
    · exact follows_failEach rfl h
    · exact .only (.refuse rfl) h
  | registerInsert => exact follows_registerInsert h
  | enablePersistence =>
    rw [perform] at h
    split_ifs at h
    · cases h
    · exact .only .merge h
  | enableMerge => exact .only .install h
  | enableInstall => exact .only .snapshots h
  | enableSnapshot =>
    rcases mem_append.mp h with h | h
    · obtain ⟨t, ht, rfl⟩ := mem_map.mp h
      obtain ⟨id, hget⟩ := mem_walkTasks.mp (mem_of_mem_filter ht)
      exact .restored hget
    · exact .only .sweep h
  | sweepOrphans => exact follows_sweepActs h
  | refreshFromPersistence =>
    rw [perform] at h
    split_ifs at h
    · exact .only .refresh h
    · cases h
  | refreshTaskFromPersistence =>
    rw [perform] at h
    split_ifs at h
    · exact .only .refreshTask h
    · cases h

/-- The sections of the readers of the ledger, up to their merge. -/
def Act.readsLedger : Act → Bool
  | .enablePersistence => true
  | .enableMerge _ => true
  | .refreshFromPersistence => true
  | .refreshMerge _ => true
  | .refreshTaskFromPersistence _ => true
  | .refreshTaskMerge _ => true
  | _ => false

theorem Act.readsLedger_of_merges (h : a.merges = true) : a.readsLedger = true := by
  cases a <;> first | rfl | cases h

theorem Follows.readsLedger (h : Follows cfg w a b) (hb : b.readsLedger = true) :
    a.readsLedger = true := by
  cases h <;> first | rfl | cases hb

end

/-- How many sections may still follow one another. -/
def Act.rank : Act → ℕ
  | .persist _ => 0
  | .invokeFailureCallback _ => 0
  | .drainPendingFailure _ => 0
  | .markLive _ => 0
  | .clearLive _ => 0
  | .refuse _ => 0
  | .registerRefuse _ => 0
  | .refreshMerge _ => 0
  | .refreshTaskMerge _ => 0
  | .persistById _ => 1
  | .notifyFailure _ => 1
  | .dispatchFailureSignal _ => 1
  | .refreshFromPersistence => 1
  | .refreshTaskFromPersistence _ => 1
  | .mark _ _ => 2
  | .markSynthAckEmitted _ => 2
  | .registerInsert _ => 2
  | .applyHarnessEvent _ _ => 3
  | .reapStuckTasks _ _ => 3
  | .markDescendantsFailed _ _ => 3
  | .guardCheck _ => 3
  | .registerFailChildren _ _ => 3
  | .guardDrop _ => 4
  | .registerPoison _ _ => 4
  | .sweepOrphans => 4
  | .registerCount _ _ => 5
  | .enableSnapshot _ => 5
  | .registerPoisoned _ _ => 6
  | .enableInstall _ => 6
  | .register _ => 7
  | .enableMerge _ => 7
  | .enablePersistence => 8

theorem Follows.rank_lt {cfg : Config} {w : World} {a b : Act} (h : Follows cfg w a b) :
    b.rank < a.rank := by
  cases h with
  | fails ha =>
    -- a transition has rank two, and what fails tasks at least three
    cases a <;> first | exact (by decide : 2 < 3) | exact (by decide : 2 < 4) | cases ha
  | refuse ha =>
    cases a <;> first | exact (by decide : 0 < 7) | exact (by decide : 0 < 5) |
      exact (by decide : 0 < 3) | exact (by decide : 0 < 2) | cases ha
  | _ => simp only [Act.rank, Nat.reduceLT]

/-- **Every call that runs on its own returns**, whatever its sections meet. -/
theorem call_finishes (cfg : Config) (readings : ℕ → Reading) (w : World) (c : Call) :
    ∃ n, (runSteps (soloStep (exec cfg)) (w, c.start) ((List.range n).map readings)).2 = [] :=
  solo_finishes (fun _ _ _ _ hb => (follows_perform hb).rank_lt) readings w c.start

end Octos.Tasks
