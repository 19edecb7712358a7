import Octos.Tasks.Sections

/-!
# Where snapshots come from

A snapshot of a task is a row of the ledger, the copy of a supervisor, or part of a section that is
still to run: a row to append, or what a reader of the ledger has found and has still to merge. This
module says once what a section can do to the snapshots there are: it hands on those it finds, a
transition adds one, and so does a registration.
-/

namespace Octos.Tasks

/-- The snapshots that a section carries. -/
def Act.rows : Act → List BackgroundTask
  | .persist row => [row]
  | .enableMerge restored => restored.values
  | .refreshMerge restored => restored.values
  | .refreshTaskMerge restored => restored.toList
  | _ => []

/-- A snapshot in the ledger, in the table of the supervisor, or in a section. -/
def Known (w : World) (acts : List Act) (row : BackgroundTask) : Prop :=
  row ∈ w.process.ledger ∨ (∃ id, w.getTask id = some row) ∨ ∃ a ∈ acts, row ∈ a.rows

/-- The snapshot that a transition makes. -/
def Marked (w : World) (a : Act) (row : BackgroundTask) : Prop :=
  ∃ id m t, a = .mark id m ∧ w.getTask id = some t ∧ m.apply w.process.clock t = some row

/-- The snapshot that a registration makes, under an id that is used up. -/
def Entered (w : World) (a : Act) (w' : World) (row : BackgroundTask) : Prop :=
  ∃ req, a = .registerInsert req ∧ row = newTask w.process.nextId w.process.clock req ∧
    w'.process.nextId = w.process.nextId + 1

section

variable {cfg : Config} {r : Reading} {w : World} {a : Act} {row : BackgroundTask} {id : TaskId}

theorem merged_cases {tasks tasks' : Table TaskId BackgroundTask} {rows : List BackgroundTask}
    (hget : ∀ x, tasks'.get id = some x → (tasks.get id = some x ∨ (x ∈ rows ∧ x.id = id)) ∧
      ∀ e, tasks.get id = some e → Before e x)
    (hkeep : ∀ e, tasks.get id = some e → ∃ x, tasks'.get id = some x) :
    tasks'.get id = tasks.get id ∨
      ∃ row ∈ rows, row.id = id ∧ tasks'.get id = some row ∧
        ∀ e, tasks.get id = some e → Before e row := by
  cases hnew : tasks'.get id with
  | none =>
    cases hold : tasks.get id with
    | none => exact .inl rfl
    | some e =>
      obtain ⟨x, hx⟩ := hkeep e hold
      rw [hnew] at hx
      cases hx
  | some x =>
    obtain ⟨hfrom, hbefore⟩ := hget x hnew
    rcases hfrom with hfrom | ⟨hmem, hid⟩
    · exact .inl hfrom.symm
    · exact .inr ⟨x, hmem, hid, rfl, hbefore⟩

theorem refreshed_before {tasks : Table TaskId BackgroundTask} {x : BackgroundTask}
    (h : ∃ e, tasks.get id = some e ∧ Before e x) : ∀ e, tasks.get id = some e → Before e x := by
  obtain ⟨e, he, hbefore⟩ := h
  intro e' he'
  rwa [← Option.some.inj (he.symm.trans he')]

variable (cfg r w a id) in
/-- **What a section does to a copy**: nothing, a transition, a registration, or a merge with a
snapshot that is at least as far. -/
theorem getTask_perform :
    (perform cfg r w a).1.getTask id = w.getTask id ∨
    (∃ m t t', a = .mark id m ∧ w.getTask id = some t ∧ m.apply w.process.clock t = some t' ∧
      perform cfg r w a = (w.setTasks (w.supervisor.tasks.insert id t'), some (m.followUp t t'))) ∨
    (∃ row, Entered w a (perform cfg r w a).1 row ∧ row.id = id ∧
      (perform cfg r w a).1.getTask id = some row) ∨
    (∃ row ∈ a.rows, row.id = id ∧ (perform cfg r w a).1.getTask id = some row ∧
      ∀ e, w.getTask id = some e → Before e row) := by
  rcases tasks_perform cfg r w a with hsame | ⟨id', m, t, t', rfl, hget, happly, hperform⟩ |
    ⟨req, rfl, htasks, hnextId⟩ | hmerges
  · exact .inl (by rw [World.getTask, hsame]; rfl)
  · by_cases hid : id = id'
    · subst hid
      exact .inr (.inl ⟨m, t, t', rfl, hget, happly, hperform⟩)
    · refine .inl ?_
      rw [hperform]
      exact Table.get_insert_of_ne _ _ hid
  · by_cases hid : id = w.process.nextId
    · subst hid
      refine .inr (.inr (.inl ⟨_, ⟨req, rfl, rfl, hnextId⟩, rfl, ?_⟩))
      rw [World.getTask, htasks, Table.get_insert_self]
    · refine .inl ?_
      rw [World.getTask, htasks, Table.get_insert_of_ne _ _ hid]
      rfl
  · cases a with
    -- A merge keeps a copy, or takes a row that is later.
    | enableMerge =>
      refine (merged_cases (fun x hx => ?_) fun e he => ?_).imp_right fun h => .inr (.inr h)
      · obtain ⟨hfrom, hcopy, -⟩ := get_foldl_mergeTask hx
        exact ⟨hfrom, hcopy⟩
      · exact exists_get_foldl_mergeTask _ _ (.inr ⟨e, he⟩)
    | refreshMerge =>
      refine (merged_cases (fun x hx => ?_) fun e he => ?_).imp_right fun h => .inr (.inr h)
      · obtain ⟨hfrom, hcopy, -⟩ := get_foldl_refreshTask hx
        exact ⟨hfrom, refreshed_before hcopy⟩
      · exact exists_get_foldl_refreshTask _ he
    | refreshTaskMerge restored =>
      cases restored with
      | none => exact .inl rfl
      | some task =>
        refine (merged_cases (fun x hx => ?_) fun e he => ?_).imp_right fun h => .inr (.inr h)
        · obtain ⟨hfrom, hcopy, -⟩ := @get_foldl_refreshTask _ _ _ [task] hx
          exact ⟨hfrom, refreshed_before hcopy⟩
        · exact exists_get_foldl_refreshTask [task] he
    | _ => cases hmerges

/-! ## The ledger -/

theorem mem_ledger_persistSnapshot {t : BackgroundTask}
    (h : row ∈ (w.persistSnapshot r t).process.ledger) : row ∈ w.process.ledger ∨ row = t := by
  rw [World.persistSnapshot] at h
  split_ifs at h
  · rcases List.mem_append.mp h with h | h
    · exact .inl h
    · exact .inr (List.mem_singleton.mp h)
  · exact .inl h

/-- The clock stands still in a section, ids are not given back, and what is new in the ledger was
carried or is entered. -/
theorem process_perform (cfg : Config) (r : Reading) (w : World) (a : Act) :
    (perform cfg r w a).1.process.clock = w.process.clock ∧
      w.process.nextId ≤ (perform cfg r w a).1.process.nextId ∧
      ∀ row ∈ (perform cfg r w a).1.process.ledger,
        row ∈ w.process.ledger ∨ row ∈ a.rows ∨ Entered w a (perform cfg r w a).1 row := by
  have hpersist : ∀ row, (w.persistSnapshot r row).process.clock = w.process.clock ∧
      (w.persistSnapshot r row).process.nextId = w.process.nextId := by
    intro row
    rw [World.persistSnapshot]
    split_ifs <;> exact ⟨rfl, rfl⟩
  -- Only `persist` and a registration write to the ledger.
  cases a with
  | mark id m =>
    rcases markSection_cases w id m with ⟨hsame, -⟩ | ⟨t, t', -, -, hmark⟩
    · rw [perform, hsame]
      exact ⟨rfl, le_rfl, fun _ => .inl⟩
    · rw [perform, hmark]
      exact ⟨rfl, le_rfl, fun _ => .inl⟩
  | persist row =>
    refine ⟨(hpersist row).1, (hpersist row).2.ge, fun row' h => ?_⟩
    rcases mem_ledger_persistSnapshot h with h | rfl
    · exact .inl h
    · exact .inr (.inl List.mem_cons_self)
  | registerInsert req =>
    rcases registerInsert_cases w r req with ⟨error, hsame⟩ | henter
    · rw [perform, hsame]
      exact ⟨rfl, le_rfl, fun _ => .inl⟩
    · rw [perform, henter]
      cases req.requirePersistence with
      | false => exact ⟨rfl, Nat.le_succ _, fun _ => .inl⟩
      | true =>
        refine ⟨(hpersist _).1, Nat.le_succ _, fun row h => ?_⟩
        rcases mem_ledger_persistSnapshot h with h | h
        · exact .inl h
        · exact .inr (.inr ⟨req, rfl, h, rfl⟩)
  | markSynthAckEmitted =>
    rw [perform, (markSynthAckEmitted_keeps ..).2]
    exact ⟨rfl, le_rfl, fun _ => .inl⟩
  | notifyFailure =>
    rw [perform, (notifyFailure_keeps ..).2]
    exact ⟨rfl, le_rfl, fun _ => .inl⟩
  | dispatchFailureSignal =>
    rw [perform, (emitSignal_keeps ..).2]
    exact ⟨rfl, le_rfl, fun _ => .inl⟩
  | _ => exact ⟨rfl, le_rfl, fun _ => .inl⟩

/-! ## Sections that carry snapshots -/

theorem Follows.rows {b : Act} (h : Follows cfg w a b) (hrow : row ∈ b.rows) :
    Known w [a] row ∨ Marked w a row := by
  cases h with
  | snapshot hget happly =>
    rw [List.mem_singleton.mp hrow]
    exact .inr ⟨_, _, _, rfl, hget, happly⟩
  | copy hget | restored hget =>
    rw [List.mem_singleton.mp hrow]
    exact .inl (.inr (.inl ⟨_, hget⟩))
  | merge | refresh => exact .inl (.inl (mem_values_loadPersistedTasks hrow))
  | refreshTask => exact .inl (.inl (get_loadPersistedTasks (Option.mem_toList.mp hrow)).1)
  | _ => cases hrow

/-- **What is known after a section was known before it, or is added by it.** -/
theorem known_perform (h : Known (perform cfg r w a).1 ((perform cfg r w a).2.getD []) row) :
    Known w [a] row ∨ Marked w a row ∨ Entered w a (perform cfg r w a).1 row := by
  rcases h with h | ⟨id, hget⟩ | ⟨b, hb, hrow⟩
  · rcases (process_perform cfg r w a).2.2 row h with h | h | h
    · exact .inl (.inl h)
    · exact .inl (.inr (.inr ⟨a, List.mem_cons_self, h⟩))
    · exact .inr (.inr h)
  · rcases getTask_perform cfg r w a id with hsame | ⟨m, t, t', ha, ht, happly, hperform⟩ |
      ⟨row', henter, -, hnew⟩ | ⟨row', hmem, -, hnew, -⟩
    · rw [hsame] at hget
      exact .inl (.inr (.inl ⟨id, hget⟩))
    · rw [hperform] at hget
      rw [getTask_setTasks, Table.get_insert_self] at hget
      cases hget
      exact .inr (.inl ⟨id, m, t, ha, ht, happly⟩)
    · rw [hnew] at hget
      cases hget
      exact .inr (.inr henter)
    · rw [hnew] at hget
      cases hget
      exact .inl (.inr (.inr ⟨a, List.mem_cons_self, hmem⟩))
  · rcases (follows_perform hb).rows hrow with h | h
    · exact .inl h
    · exact .inr (.inl h)

theorem marked_row (h : Marked w a row) : ∃ id m t,
    a = .mark id m ∧ w.getTask id = some t ∧ row.id = t.id ∧ row.updatedAt = w.process.clock ∧
      row.status.isTerminal = (t.status.isTerminal || m.settles) := by
  obtain ⟨id, m, t, ha, hget, happly⟩ := h
  obtain ⟨hsame, hstamp⟩ := m.apply_sameTask happly
  exact ⟨id, m, t, ha, hget, hsame.id, hstamp, m.isTerminal_apply happly⟩

theorem keyed_perform (hkeyed : ∀ id t, w.getTask id = some t → t.id = id) (id : TaskId)
    (t : BackgroundTask) (hget : (perform cfg r w a).1.getTask id = some t) : t.id = id := by
  rcases getTask_perform cfg r w a id with hsame | ⟨m, t₀, t', -, ht₀, happly, hperform⟩ |
    ⟨row, -, hid, hnew⟩ | ⟨row, -, hid, hnew, -⟩
  · rw [hsame] at hget
    exact hkeyed id t hget
  · rw [hperform] at hget
    rw [getTask_setTasks, Table.get_insert_self] at hget
    cases hget
    rw [(m.apply_sameTask happly).1.id, hkeyed id t₀ ht₀]
  · rw [hnew] at hget
    cases hget
    exact hid
  · rw [hnew] at hget
    cases hget
    exact hid

end

theorem rows_first (c : Call) : c.first.rows = [] := by
  cases c <;> rfl

end Octos.Tasks
