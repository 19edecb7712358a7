import Octos.Tasks.Rows

/-!
# Verdicts across supervisors

Supervisors share a ledger, and each has its own copy of a task. A supervisor guards its own copy:
once that is terminal, it stays. Between supervisors the later snapshot counts. A copy that has not
heard of the verdict can be touched after it, and then competes with the verdict and wins.

So a verdict stays exactly as long as the clock is on its side. It is on its side when a copy that
is not terminal is left alone, or settled too, once there is a verdict anywhere: in the ledger, in
the table of a supervisor, or in a section that is under way.

## Main results

* `verdict_final`: no reader undoes a verdict, in every run that respects verdicts
* `stale_copy_revives`: a copy that is touched after the verdict
-/

namespace Octos.Tasks

open List

/-! ## Supervisors over one ledger -/

/-- Supervisors that share a process and its ledger. -/
structure System where
  supervisors : List Supervisor
  process : Process

def execOn (cfg : Config) (r : Reading) (s : System) (a : ℕ × Act) :
    System × Option (List (ℕ × Act)) :=
  match s.supervisors[a.1]? with
  | none => (s, some [])
  | some supervisor =>
    let out := exec cfg r ⟨supervisor, s.process⟩ a.2
    (⟨s.supervisors.set a.1 out.1.supervisor, out.1.process⟩,
      out.2.map fun acts => acts.map (a.1, ·))

def startOn (c : ℕ × Call) : List (ℕ × Act) := [(c.1, c.2.first)]

namespace System

def step (cfg : Config) : Pool System (ℕ × Act) → Move (ℕ × Call) Reading → Pool System (ℕ × Act) :=
  Pool.step startOn (execOn cfg)

/-- New supervisors in a process in which nothing has happened yet. -/
def initial (n : ℕ) : Pool System (ℕ × Act) :=
  ⟨⟨List.replicate n Supervisor.new, ⟨[], [], 0, 0⟩⟩, []⟩

/-- The snapshots there are: in the ledger, in the tables, and in the sections under way. -/
def knownRows (p : Pool System (ℕ × Act)) : List BackgroundTask :=
  p.shared.process.ledger ++ (p.shared.supervisors.flatMap (·.tasks.values) ++
    p.acts.flatMap (·.2.rows))

theorem mem_knownRows {p : Pool System (ℕ × Act)} {row : BackgroundTask} :
    row ∈ knownRows p ↔ row ∈ p.shared.process.ledger ∨
      (∃ supervisor ∈ p.shared.supervisors, ∃ id, supervisor.tasks.get id = some row) ∨
      ∃ a ∈ p.acts, row ∈ a.2.rows := by
  simp [knownRows, Table.mem_values]

end System

section

variable {cfg : Config} {p : Pool System (ℕ × Act)} {i k : ℕ} {r : Reading} {a : Act}
  {supervisor : Supervisor}

/-- The supervisor that runs a section, with its process, at the time of the section. -/
def System.worldAt (s : System) (supervisor : Supervisor) (r : Reading) : World :=
  (⟨supervisor, s.process⟩ : World).advance r.tick

variable (cfg r a) in
theorem execOn_of_none {s : System} (h : s.supervisors[k]? = none) :
    execOn cfg r s (k, a) = (s, some []) := by
  rw [execOn, h]

variable (cfg r a) in
theorem execOn_of_some {s : System} (h : s.supervisors[k]? = some supervisor) :
    execOn cfg r s (k, a) =
      (⟨s.supervisors.set k (perform cfg r (s.worldAt supervisor r) a).1.supervisor,
        (perform cfg r (s.worldAt supervisor r) a).1.process⟩,
        (perform cfg r (s.worldAt supervisor r) a).2.map fun acts => acts.map (k, ·)) := by
  rw [execOn, h]
  rfl

variable {row : BackgroundTask}

theorem mem_knownRows_of_none (hnext : p.next i = some (k, a)) (h : p.shared.supervisors[k]? = none)
    (hrow : row ∈ System.knownRows (System.step cfg p (.run i r))) : row ∈ System.knownRows p := by
  have hexec := execOn_of_none cfg r a h
  rw [System.mem_knownRows] at hrow ⊢
  rw [System.step, Pool.shared_run hnext, hexec] at hrow
  rcases hrow with hrow | hrow | ⟨b, hb, hrow⟩
  · exact .inl hrow
  · exact .inr (.inl hrow)
  · rcases Pool.mem_acts_run hnext hb with hb | hb
    · exact .inr (.inr ⟨b, hb, hrow⟩)
    · rw [hexec] at hb
      cases hb

/-- **What is known after a section was known before it, or is added by it.** -/
theorem mem_knownRows_run (hnext : p.next i = some (k, a))
    (h : p.shared.supervisors[k]? = some supervisor)
    (hrow : row ∈ System.knownRows (System.step cfg p (.run i r))) :
    row ∈ System.knownRows p ∨ Marked (p.shared.worldAt supervisor r) a row ∨
      Entered (p.shared.worldAt supervisor r) a
        (perform cfg r (p.shared.worldAt supervisor r) a).1 row := by
  have hexec := execOn_of_some cfg r a h
  have hperform : Known (perform cfg r (p.shared.worldAt supervisor r) a).1
      ((perform cfg r (p.shared.worldAt supervisor r) a).2.getD []) row ∨
      row ∈ System.knownRows p := by
    rw [System.mem_knownRows] at hrow ⊢
    rw [System.step, Pool.shared_run hnext, hexec] at hrow
    rcases hrow with hrow | ⟨other, hother, id, hget⟩ | ⟨b, hb, hrow⟩
    · exact .inl (.inl hrow)
    · rcases mem_or_eq_of_mem_set hother with hother | rfl
      · exact .inr (.inr (.inl ⟨other, hother, id, hget⟩))
      · exact .inl (.inr (.inl ⟨id, hget⟩))
    · rcases Pool.mem_acts_run hnext hb with hb | hb
      · exact .inr (.inr (.inr ⟨b, hb, hrow⟩))
      · rw [hexec] at hb
        cases hacts : (perform cfg r (p.shared.worldAt supervisor r) a).2 with rw [hacts] at hb
        | none => cases hb
        | some acts =>
          obtain ⟨act, hact, rfl⟩ := mem_map.mp hb
          exact .inl (.inr (.inr ⟨act, hact, hrow⟩))
  rcases hperform with hknown | hknown
  · refine (known_perform hknown).imp_left fun hknown => System.mem_knownRows.mpr ?_
    -- what the section found is the ledger, a copy of its supervisor, or its own
    rcases hknown with hledger | ⟨id, hget⟩ | ⟨b, hb, hrow⟩
    · exact .inl hledger
    · exact .inr (.inl ⟨supervisor, mem_of_getElem? h, id, hget⟩)
    · rw [mem_singleton.mp hb] at hrow
      exact .inr (.inr ⟨(k, a), Pool.mem_acts_of_next hnext, hrow⟩)
  · exact .inl hknown

theorem mem_knownRows_spawn {c : ℕ × Call}
    (hrow : row ∈ System.knownRows (System.step cfg p (.spawn c))) : row ∈ System.knownRows p := by
  rw [System.mem_knownRows] at hrow ⊢
  rcases hrow with hrow | hrow | ⟨b, hb, hrow⟩
  · exact .inl hrow
  · exact .inr (.inl hrow)
  · rcases Pool.mem_acts_spawn.mp hb with hb | hb
    · exact .inr (.inr ⟨b, hb, hrow⟩)
    · rw [mem_singleton.mp hb, rows_first] at hrow
      cases hrow

end

/-! ## Respecting verdicts -/

/-- A transition that is no verdict is made on a copy that is not terminal only while there is no
verdict on the task, in the ledger, in a table or under way. -/
def respectsVerdicts (p : Pool System (ℕ × Act)) : Move (ℕ × Call) Reading → Bool
  | .spawn _ => true
  | .run i _ =>
    match p.next i with
    | some (k, .mark id m) =>
      m.settles || (p.shared.supervisors[k]?.bind (·.tasks.get id)).all (·.status.isTerminal) ||
        (System.knownRows p).all fun row => row.id != id || !row.isFinal
    | _ => true

/-- Snapshots are not from the future, copies are under their ids, and an open snapshot is not later
than a verdict. -/
structure Orderly (p : Pool System (ℕ × Act)) : Prop where
  stamped : ∀ row ∈ System.knownRows p,
    row.updatedAt ≤ p.shared.process.clock ∧ row.id < p.shared.process.nextId
  keyed : ∀ supervisor ∈ p.shared.supervisors, ∀ id t, supervisor.tasks.get id = some t → t.id = id
  ordered : ∀ row ∈ System.knownRows p, row.isFinal = true → ∀ other ∈ System.knownRows p,
    other.id = row.id → ¬ other.status.isTerminal = true → other.updatedAt ≤ row.updatedAt

section

variable {cfg : Config} {p : Pool System (ℕ × Act)} {i k : ℕ} {r : Reading} {a : Act}
  {supervisor : Supervisor}

theorem isFinal_of_respectsVerdicts {id : TaskId} {m : Mark} {t row : BackgroundTask}
    (hok : respectsVerdicts p (.run i r) = true) (hnext : p.next i = some (k, .mark id m))
    (hk : p.shared.supervisors[k]? = some supervisor) (hget : supervisor.tasks.get id = some t)
    (hopen : ¬ (t.status.isTerminal || m.settles) = true) (hrow : row ∈ System.knownRows p)
    (hid : row.id = id) : ¬ row.isFinal = true := by
  rw [respectsVerdicts, hnext] at hok
  simp only [Bool.or_eq_true, not_or] at hopen
  simp only [hk, Option.bind_some, hget, Option.all_some, Bool.or_eq_true, hopen.1, hopen.2,
    or_self] at hok
  have hrow := all_eq_true.mp (hok.resolve_left Bool.false_ne_true) row hrow
  simpa [hid] using hrow

/-- **A section that respects verdicts keeps the order of the snapshots.** -/
theorem Orderly.run (h : Orderly p) (hnext : p.next i = some (k, a))
    (hok : respectsVerdicts p (.run i r) = true) : Orderly (System.step cfg p (.run i r)) := by
  cases hk : p.shared.supervisors[k]? with
  -- There is no such supervisor, and nothing happens.
  | none =>
    have hshared : (System.step cfg p (.run i r)).shared = p.shared := by
      rw [System.step, Pool.shared_run hnext, execOn_of_none cfg r a hk]
    refine ⟨fun row hrow => ?_, ?_, fun row hrow hfinal other hother => ?_⟩
    · rw [hshared]
      exact h.stamped row (mem_knownRows_of_none hnext hk hrow)
    · rw [hshared]
      exact h.keyed
    · exact h.ordered row (mem_knownRows_of_none hnext hk hrow) hfinal other
        (mem_knownRows_of_none hnext hk hother)
  | some supervisor =>
    have hshared : (System.step cfg p (.run i r)).shared =
        ⟨p.shared.supervisors.set k (perform cfg r (p.shared.worldAt supervisor r) a).1.supervisor,
          (perform cfg r (p.shared.worldAt supervisor r) a).1.process⟩ := by
      rw [System.step, Pool.shared_run hnext, execOn_of_some cfg r a hk]
    obtain ⟨hclock, hids, -⟩ := process_perform cfg r (p.shared.worldAt supervisor r) a
    have hmember := mem_of_getElem? hk
    have hlater : p.shared.process.clock ≤ (p.shared.worldAt supervisor r).process.clock :=
      Nat.le_add_right ..
    refine ⟨fun row hrow => ?_, fun other hother => ?_,
      fun row hrow hfinal other hother hid hopen => ?_⟩
    · rw [hshared]
      rw [hclock]
      rcases mem_knownRows_run hnext hk hrow with hrow | hrow | hrow
      · obtain ⟨hstamp, hid⟩ := h.stamped row hrow
        exact ⟨hstamp.trans hlater, hid.trans_le hids⟩
      · obtain ⟨id, m, t, rfl, hget, hid, hstamp, -⟩ := marked_row hrow
        have hknown : t ∈ System.knownRows p :=
          System.mem_knownRows.mpr (.inr (.inl ⟨supervisor, hmember, id, hget⟩))
        exact ⟨hstamp.le, by rw [hid]; exact (h.stamped t hknown).2.trans_le hids⟩
      · obtain ⟨req, -, rfl, hnextId⟩ := hrow
        exact ⟨le_rfl, by rw [hnextId]; exact Nat.lt_succ_self _⟩
    · rw [hshared] at hother
      rcases mem_or_eq_of_mem_set hother with hother | rfl
      · exact h.keyed other hother
      · exact keyed_perform (h.keyed supervisor hmember)
    · rcases mem_knownRows_run hnext hk hrow with hrow | hrow | hrow
      · rcases mem_knownRows_run hnext hk hother with hother | hother | hother
        · exact h.ordered row hrow hfinal other hother hid hopen
        · -- an open copy was touched although there was a verdict
          obtain ⟨id, m, t, rfl, hget, hother, -, hterminal⟩ := marked_row hother
          rw [hterminal] at hopen
          have hid' : row.id = id := by rw [← hid, hother, h.keyed supervisor hmember id t hget]
          exact absurd hfinal (isFinal_of_respectsVerdicts hok hnext hk hget hopen hrow hid')
        · -- a new task has an id that no snapshot has
          obtain ⟨req, -, rfl, -⟩ := hother
          have hlt := (h.stamped row hrow).2
          rw [← hid] at hlt
          exact absurd hlt (lt_irrefl _)
      · -- the verdict is of now
        obtain ⟨-, -, -, -, -, -, hstamp, -⟩ := marked_row hrow
        rw [hstamp]
        rcases mem_knownRows_run hnext hk hother with hother | hother | hother
        · exact (h.stamped other hother).1.trans hlater
        · obtain ⟨-, -, -, -, -, -, hstamp', -⟩ := marked_row hother
          exact hstamp'.le
        · obtain ⟨req, -, rfl, -⟩ := hother
          exact le_rfl
      · obtain ⟨req, -, rfl, -⟩ := hrow
        cases hfinal

theorem Orderly.spawn (h : Orderly p) (c : ℕ × Call) : Orderly (System.step cfg p (.spawn c)) where
  stamped row hrow := h.stamped row (mem_knownRows_spawn hrow)
  keyed := h.keyed
  ordered row hrow hfinal other hother :=
    h.ordered row (mem_knownRows_spawn hrow) hfinal other (mem_knownRows_spawn hother)

theorem orderly_initial (n : ℕ) : Orderly (System.initial n) := by
  have hnone : System.knownRows (System.initial n) = [] := by
    refine eq_nil_iff_forall_not_mem.mpr fun row hrow => ?_
    rcases System.mem_knownRows.mp hrow with hrow | ⟨supervisor, hmember, id, hget⟩ | ⟨a, ha, -⟩
    · cases hrow
    · rw [eq_of_mem_replicate hmember] at hget
      cases hget
    · cases ha
  refine ⟨fun row hrow => ?_, fun supervisor hmember id t hget => ?_, fun row hrow => ?_⟩
  · rw [hnone] at hrow
    cases hrow
  · rw [eq_of_mem_replicate hmember] at hget
    cases hget
  · rw [hnone] at hrow
    cases hrow

theorem orderly_run {n : ℕ} {moves : List (Move (ℕ × Call) Reading)}
    (h : Guarded (System.step cfg) (fun p move => respectsVerdicts p move = true) (System.initial n)
      moves) : Orderly (runSteps (System.step cfg) (System.initial n) moves) :=
  Pool.invariant (fun _ c hp _ => hp.spawn c) (fun _ _ _ _ hp hnext hok => hp.run hnext hok) h
    (orderly_initial n)

end

/-! ## Readers of the ledger -/

section

variable {p : Pool System (ℕ × Act)} {row x : BackgroundTask}

theorem Orderly.terminal_of_before (h : Orderly p) (hrow : row ∈ p.shared.process.ledger)
    (hfinal : row.isFinal = true) (hx : x ∈ System.knownRows p) (hid : x.id = row.id)
    (hbefore : Before row x) : x.status.isTerminal = true := by
  by_contra hopen
  have hlt := hbefore.lt_of_open (BackgroundTask.isTerminal_of_isFinal hfinal) hopen
  have hle := h.ordered row (System.mem_knownRows.mpr (.inl hrow)) hfinal x hx hid hopen
  exact absurd hlt (not_lt.mpr hle)

theorem exists_before_loadPersistedTasks (hrow : row ∈ p.shared.process.ledger) :
    ∃ l, (loadPersistedTasks p.shared.process.ledger).get row.id = some l ∧ l.id = row.id ∧
      Before row l := by
  obtain ⟨l, hl⟩ := exists_get_foldl_mergeTask Table.empty p.shared.process.ledger
    (.inl ⟨row, hrow, rfl⟩)
  obtain ⟨-, hid, hbefore⟩ := get_loadPersistedTasks hl
  exact ⟨l, hl, hid, hbefore row hrow rfl⟩

/-- **Verdicts are final where they are respected.** Once the ledger has a verdict on a task, nobody
who reads it finds the task open: not its loader, and not a supervisor that asks for the status or
freshens its copies. -/
theorem verdict_final (cfg : Config) (n : ℕ) (moves : List (Move (ℕ × Call) Reading))
    (h : Guarded (System.step cfg) (fun p move => respectsVerdicts p move = true) (System.initial n)
      moves) :
    let s := (runSteps (System.step cfg) (System.initial n) moves).shared
    let ledger := s.process.ledger
    ∀ row ∈ ledger, row.isFinal = true →
      (∀ x, (loadPersistedTasks ledger).get row.id = some x → x.status.isTerminal = true) ∧
      ∀ supervisor ∈ s.supervisors,
        (∀ x, (taskStatusSnapshot supervisor.tasks ledger).get row.id = some x →
          x.status.isTerminal = true) ∧
        (∀ x, (refreshFromPersistence supervisor.tasks (loadPersistedTasks ledger)).get
          row.id = some x → x.status.isTerminal = true) ∧
        (∀ x, (refreshTaskFromPersistence supervisor.tasks
            ((loadPersistedTasks ledger).get row.id)).get row.id = some x →
          x.status.isTerminal = true) := by
  intro s ledger row hrow hfinal
  have horderly := orderly_run h
  obtain ⟨l, hl, hlid, hbefore⟩ := exists_before_loadPersistedTasks hrow
  have hledger :
      ∀ x ∈ ledger, x ∈ System.knownRows (runSteps (System.step cfg) (System.initial n) moves) :=
    fun x hx => System.mem_knownRows.mpr (.inl hx)
  -- whoever merges the ledger into their copies ends with a copy or a row that is as far
  have hreader : ∀ supervisor ∈ s.supervisors, ∀ x,
      (supervisor.tasks.get row.id = some x ∨ (x ∈ ledger ∧ x.id = row.id)) → Before l x →
        x.status.isTerminal = true := by
    intro supervisor hmember x hfrom hlx
    rcases hfrom with hget | ⟨hx, hid⟩
    · have hx := System.mem_knownRows.mpr (.inr (.inl ⟨supervisor, hmember, row.id, hget⟩))
      exact horderly.terminal_of_before hrow hfinal hx (horderly.keyed supervisor hmember _ x hget)
        (hbefore.trans hlx)
    · exact horderly.terminal_of_before hrow hfinal (hledger x hx) hid (hbefore.trans hlx)
  have hvalue : l ∈ (loadPersistedTasks ledger).values := Table.mem_values.mpr ⟨row.id, hl⟩
  refine ⟨fun x hx => ?_,
    fun supervisor hmember => ⟨fun x hx => ?_, fun x hx => ?_, fun x hx => ?_⟩⟩
  · obtain ⟨hmem, hid, hrows⟩ := get_loadPersistedTasks hx
    exact horderly.terminal_of_before hrow hfinal (hledger x hmem) hid (hrows row hrow rfl)
  · obtain ⟨hfrom, -, hrows⟩ := get_foldl_mergeTask hx
    refine hreader supervisor hmember x (hfrom.imp_right fun hx => ?_) (hrows l hvalue hlid)
    exact ⟨mem_values_loadPersistedTasks hx.1, hx.2⟩
  · obtain ⟨hfrom, -, hrows⟩ := get_foldl_refreshTask hx
    refine hreader supervisor hmember x (hfrom.imp_right fun hx => ?_) (hrows l hvalue hlid)
    exact ⟨mem_values_loadPersistedTasks hx.1, hx.2⟩
  · have hsome : (loadPersistedTasks ledger).get row.id = some l := hl
    rw [hsome] at hx
    obtain ⟨hfrom, -, hrows⟩ := @get_foldl_refreshTask _ _ _ [l] hx
    refine hreader supervisor hmember x (hfrom.imp_right fun hx => ?_)
      (hrows l (mem_singleton_self l) hlid)
    rw [mem_singleton.mp hx.1]
    exact ⟨(get_loadPersistedTasks hl).1, hlid⟩

end

/-- The first supervisor registers a task whose worker is live, the second takes a copy of it from
the ledger, and the first reports the task completed. -/
def completedElsewhere : List (Move (ℕ × Call) Reading) :=
  Move.alone 0 (0, .enablePersistence) (Reading.after 1) 5 ++
    Move.alone 1 (0, .register (detached "tc")) (Reading.after 1) 4 ++
    Move.alone 2 (0, .guardNew 0) (Reading.after 1) 1 ++
    Move.alone 3 (1, .enablePersistence) (Reading.after 1) 5 ++
    Move.alone 4 (0, .mark 0 (.completed [])) (Reading.after 1) 3

/-- Then the copy of the second supervisor moves on. -/
def touchedCopy : List (Move (ℕ × Call) Reading) :=
  completedElsewhere ++
    Move.alone 5 (1, .mark 0 (.runtimeState .executingTool none)) (Reading.after 1) 2

/-- The hypothesis of `verdict_final` holds of the run up to the verdict, whose ledger has one. -/
theorem verdict_final_completedElsewhere :
    let s := (runSteps (System.step (configOf 1 Nat.one_pos)) (System.initial 2)
      completedElsewhere).shared
    ∃ row ∈ s.process.ledger, row.isFinal = true ∧
      ∀ supervisor ∈ s.supervisors, ∀ x,
        (taskStatusSnapshot supervisor.tasks s.process.ledger).get row.id = some x →
          x.status.isTerminal = true := by
  intro s
  have hverdict : ∃ row ∈ s.process.ledger, row.isFinal = true := by decide +kernel
  obtain ⟨row, hrow, hfinal⟩ := hverdict
  have hrun := verdict_final (configOf 1 Nat.one_pos) 2 completedElsewhere (by decide +kernel)
  exact ⟨row, hrow, hfinal,
    fun supervisor hmember => ((hrun row hrow hfinal).2 supervisor hmember).1⟩

/-- **A copy that is touched after the verdict competes with it and wins**: the ledger has the
completion and says that the task is open, and both supervisors freshen their copies to that. -/
theorem stale_copy_revives :
    let s := (runSteps (System.step (configOf 1 Nat.one_pos)) (System.initial 2) touchedCopy).shared
    (∃ row ∈ s.process.ledger, row.id = 0 ∧ row.status = .completed) ∧
      ((loadPersistedTasks s.process.ledger).get 0).map (·.status) = some .spawned ∧
      s.supervisors.map (fun supervisor =>
        ((refreshFromPersistence supervisor.tasks (loadPersistedTasks s.process.ledger)).get 0).map
          (·.status)) = [some .spawned, some .spawned] := by
  decide +kernel

end Octos.Tasks
