import Octos.Supervision.State

/-!
# Revisions of a queued continuation

The attempt of a continuation record is the revision of its payload: a correction queues the
continuation again with a higher attempt, and what is still on its way for an earlier revision must
not undo it. Starts and completions compare their attempt with that of the record. A queued payload
does so only against a record whose status is ahead of its own: among records of the same status a
lower attempt replaces a higher one (`stale_payload_replaces_newer`). Where no payload meets a
record that way, revisions never go back (`revisions_never_go_back`).
-/

namespace Octos.Supervision

/-- The attempt that an event about the continuation at `key` carries. -/
def Event.revisionAt (key : String) : Event → Option ℕ
  | continuationQueued c =>
      if continuationKey c.groupId c.continuationId = key then some c.attempt else none
  | continuationStarted groupId continuationId _ attempt =>
    if continuationKey groupId continuationId = key then some attempt else none
  | continuationCompleted groupId continuationId _ _ attempt =>
    if continuationKey groupId continuationId = key then some attempt else none
  | _ => none

/-- The record without its lifecycle: what was queued. -/
def ContinuationRecord.payload (r : ContinuationRecord) : ContinuationRecord :=
  { r with status := .queued, startedAtMs := none, completedAtMs := none, result := none }

namespace SupervisorState

/-- A payload that is applied and meets a record is not behind it: its attempt is not lower, unless
the status of the record is ahead and keeps it out, and it is completed only where the record is. -/
def queuesInOrder (s : SupervisorState) (row : LedgerRow) : Bool :=
  match row.event with
  | .continuationQueued c =>
    !s.accepts row || (s.continuations.get (continuationKey c.groupId c.continuationId)).all
      fun record =>
      (decide (record.attempt ≤ c.attempt) || decide (c.status.rank < record.status.rank)) &&
        (c.status != .completed || record.status == .completed)
  | _ => true

variable {s : SupervisorState}

theorem queuesInOrder_queued {row : LedgerRow} {c record : ContinuationRecord}
    (h : s.queuesInOrder row) (hrow : row.event = .continuationQueued c) (haccepts : s.accepts row)
    (hrecord : s.continuations.get (continuationKey c.groupId c.continuationId) = some record) :
    (record.attempt ≤ c.attempt ∨ c.status.rank < record.status.rank) ∧
      (c.status = .completed → record.status = .completed) := by
  simp only [queuesInOrder, hrow, haccepts, hrecord] at h
  simp only [Bool.not_true, Option.all_some, Bool.false_or, Bool.and_eq_true, Bool.or_eq_true,
    decide_eq_true_eq, bne_iff_ne, beq_iff_eq] at h
  exact ⟨h.1, fun hc => h.2.resolve_left fun hne => hne hc⟩

theorem lifecycleAttemptMatches_some {record : ContinuationRecord} {incomingAttempt : ℕ} :
    lifecycleAttemptMatches (some record) incomingAttempt ↔
      incomingAttempt = 0 ∨ record.attempt ≤ incomingAttempt := by
  simp [lifecycleAttemptMatches]

/-! ## One row -/

section

variable {s : SupervisorState} {row : LedgerRow} {key : String} {r : ContinuationRecord}

theorem attempt_le_applyLedgerRow (h : s.queuesInOrder row)
    (hr : s.continuations.get key = some r) :
    ∃ r', (s.applyLedgerRow row).continuations.get key = some r' ∧ r.attempt ≤ r'.attempt := by
  by_cases haccepts : s.accepts row
  · have hstep := continuationStep_applyLedgerRow haccepts key
    generalize (s.applyLedgerRow row).continuations.get key = after at hstep ⊢
    generalize hevent : row.event = event at hstep
    rw [hr] at hstep
    cases hstep with
    | kept => exact ⟨r, rfl, le_refl _⟩
    | queued c hkey hnone => cases hnone
    | merged c existing hkey hsome heligible =>
      cases hsome
      refine ⟨_, rfl, ?_⟩
      subst hkey
      obtain ⟨hle | hlt, -⟩ := queuesInOrder_queued h hevent haccepts hr
      · exact hle
      -- The record is ahead, so only a higher attempt was eligible.
      · exact (heligible.resolve_right (not_le.mpr hlt)).le
    | started | completed => exact ⟨_, rfl, le_refl _⟩
  · rw [continuations_applyLedgerRow_of_not_accepts haccepts]
    exact ⟨r, hr, le_refl _⟩

/-- After an applied payload the record is of its attempt or a later one, whatever it met. -/
theorem attempt_le_of_queued {c : ContinuationRecord} (hrow : row.event = .continuationQueued c)
    (haccepts : s.accepts row) :
    ∃ r', (s.applyLedgerRow row).continuations.get (continuationKey c.groupId c.continuationId) =
      some r' ∧ c.attempt ≤ r'.attempt := by
  rw [applyLedgerRow, if_pos haccepts, hrow]
  dsimp only [applyEvent, upsertContinuation]
  split
  · exact ⟨c, Table.get_insert_self .., le_refl _⟩
  · rename_i existing hsome
    split_ifs with heligible
    · exact ⟨_, Table.get_insert_self .., le_refl _⟩
    · exact ⟨existing, hsome, not_lt.mp fun hlt => heligible (.inl hlt)⟩

/-- The row is applied and completes the continuation at `key`, as the revision `k`, a later one, or
without saying which. -/
def CompletesFrom (s : SupervisorState) (key : String) (k : ℕ) (row : LedgerRow) : Prop :=
  s.accepts row ∧ ∃ groupId continuationId completedAtMs result attempt,
    row.event = .continuationCompleted groupId continuationId completedAtMs result attempt ∧
      continuationKey groupId continuationId = key ∧ (attempt = 0 ∨ k ≤ attempt)

def IsCompleted (s : SupervisorState) (key : String) : Prop :=
  ∃ r, s.continuations.get key = some r ∧ r.status = .completed

variable {k : ℕ}

section

variable (h : s.queuesInOrder row) (hr : s.continuations.get key = some r)
include h hr

theorem completesFrom_of_isCompleted (hk : k ≤ r.attempt) (hopen : r.status ≠ .completed)
    (hcompleted : (s.applyLedgerRow row).IsCompleted key) : s.CompletesFrom key k row := by
  obtain ⟨r', hr', hstatus⟩ := hcompleted
  by_cases haccepts : s.accepts row
  · have hstep := continuationStep_applyLedgerRow haccepts key
    rw [hr, hr'] at hstep
    generalize hevent : row.event = event at hstep
    cases hstep with
    | kept => exact absurd hstatus hopen
    | queued c hkey hnone => cases hnone
    | merged _ _ hkey =>
      subst hkey
      exact absurd ((queuesInOrder_queued h hevent haccepts hr).2 hstatus) hopen
    | started =>
      simp [startRecord, hopen] at hstatus
    | completed groupId continuationId completedAtMs result attempt hkey hmatch =>
      refine ⟨haccepts, groupId, continuationId, completedAtMs, result, attempt, hevent, hkey, ?_⟩
      exact (lifecycleAttemptMatches_some.mp hmatch).imp_right hk.trans
  · rw [continuations_applyLedgerRow_of_not_accepts haccepts, hr] at hr'
    cases hr'
    exact absurd hstatus hopen

/-- A row of a lower attempt leaves the payload as it is; if it carries an attempt at all, it leaves
the whole record as it is. -/
theorem payload_of_stale (hk : row.event.revisionAt key = some k) (hlt : k < r.attempt) :
    ∃ r', (s.applyLedgerRow row).continuations.get key = some r' ∧ r'.payload = r.payload ∧
      (k ≠ 0 → r' = r) := by
  by_cases haccepts : s.accepts row
  · have hstep := continuationStep_applyLedgerRow haccepts key
    generalize (s.applyLedgerRow row).continuations.get key = after at hstep ⊢
    generalize hevent : row.event = event at hstep hk
    rw [hr] at hstep
    cases hstep with
    | kept => exact ⟨r, rfl, rfl, fun _ => rfl⟩
    | queued c hkey hnone => cases hnone
    | merged c existing hkey hsome heligible =>
      cases hsome
      simp only [Event.revisionAt, if_pos hkey, Option.some.injEq] at hk
      subst hkey hk
      -- The guard keeps a lower attempt behind the status, where it is not eligible.
      obtain ⟨hle | hrank, -⟩ := queuesInOrder_queued h hevent haccepts hr
      · exact absurd hle (not_le.mpr hlt)
      · exact absurd heligible (not_or.mpr ⟨not_lt.mpr hlt.le, not_le.mpr hrank⟩)
    | started groupId continuationId startedAtMs attempt hkey hmatch
    | completed _ _ _ _ _ hkey hmatch =>
      simp only [Event.revisionAt, if_pos hkey, Option.some.injEq] at hk
      subst hk
      refine ⟨_, rfl, rfl, fun hne => ?_⟩
      exact absurd ((lifecycleAttemptMatches_some.mp hmatch).resolve_left hne) (not_le.mpr hlt)
  · rw [continuations_applyLedgerRow_of_not_accepts haccepts]
    exact ⟨r, hr, rfl, fun _ => rfl⟩

end

end

/-! ## Runs -/

/-- The rows are applied in order, and no payload among them is behind the record it meets. -/
def RunsInOrder (s : SupervisorState) (rows : List LedgerRow) : Prop :=
  Guarded applyLedgerRow (fun s row => s.queuesInOrder row) s rows

variable {rows : List LedgerRow} {key : String}

section

variable (h : s.RunsInOrder rows) {k : ℕ}
  (hk : ∃ r, s.continuations.get key = some r ∧ k ≤ r.attempt)
include h hk

theorem attempt_le_run :
    ∃ r, (runSteps applyLedgerRow s rows).continuations.get key = some r ∧ k ≤ r.attempt := by
  refine Guarded.invariant (P := fun s => ∃ r, s.continuations.get key = some r ∧
    k ≤ r.attempt) ?_ h hk
  rintro s row ⟨r, hr, hle⟩ hok
  obtain ⟨r', hr', hle'⟩ := attempt_le_applyLedgerRow hok hr
  exact ⟨r', hr', hle.trans hle'⟩

theorem exists_completesFrom
    (hopen : ¬s.IsCompleted key) (hcompleted : (runSteps applyLedgerRow s rows).IsCompleted key) :
    ∃ before row after, rows = before ++ row :: after ∧
      (runSteps applyLedgerRow s before).CompletesFrom key k row := by
  induction rows generalizing s with
  | nil => exact absurd hcompleted hopen
  | cons row rows ih =>
    obtain ⟨r, hr, hle⟩ := hk
    have hstatus : r.status ≠ .completed := fun hs => hopen ⟨r, hr, hs⟩
    by_cases hnext : (s.applyLedgerRow row).IsCompleted key
    · exact ⟨[], row, rows, rfl, completesFrom_of_isCompleted h.1 hr hle hstatus hnext⟩
    · obtain ⟨r', hr', hle'⟩ := attempt_le_applyLedgerRow h.1 hr
      obtain ⟨before, row', after, rfl, hfrom⟩ :=
        ih h.2 ⟨r', hr', hle.trans hle'⟩ hnext hcompleted
      exact ⟨row :: before, row', after, rfl, hfrom⟩

end

/-- **Revisions never go back.** Where every payload is in order, from any state: the attempt of a
record never decreases; once a payload of attempt `k` was applied, an open record is completed only
by an applied completion of attempt 0 or at least `k`; and a row of a lower attempt than the
record's leaves the payload as it is, and the whole record if its attempt is not 0. -/
theorem revisions_never_go_back (s : SupervisorState) (rows : List LedgerRow)
    (h : s.RunsInOrder rows)
    (key : String) :
    (∀ before after, rows = before ++ after → ∀ r,
      (runSteps applyLedgerRow s before).continuations.get key = some r →
      ∃ r', (runSteps applyLedgerRow s rows).continuations.get key = some r' ∧
        r.attempt ≤ r'.attempt) ∧
    (∀ before row between after c, rows = before ++ row :: between ++ after →
      row.event = .continuationQueued c → continuationKey c.groupId c.continuationId = key →
      (runSteps applyLedgerRow s before).accepts row →
      ¬(runSteps applyLedgerRow s (before ++ row :: between)).IsCompleted key →
      (runSteps applyLedgerRow s rows).IsCompleted key →
      ∃ earlier completion later, after = earlier ++ completion :: later ∧
        (runSteps applyLedgerRow s (before ++ row :: between ++ earlier)).CompletesFrom
          key c.attempt
          completion) ∧
    (∀ before row after r k, rows = before ++ row :: after →
      (runSteps applyLedgerRow s before).continuations.get key = some r →
      row.event.revisionAt key = some k → k < r.attempt →
      ∃ r', (runSteps applyLedgerRow s (before ++ [row])).continuations.get key = some r' ∧
        r'.payload = r.payload ∧ (k ≠ 0 → r' = r)) := by
  refine ⟨?_, ?_, ?_⟩
  · rintro before after rfl r hr
    rw [runSteps_append]
    exact attempt_le_run ((guarded_append ..).mp h).2 ⟨r, hr, le_refl _⟩
  · rintro before row between after c rfl hrow rfl haccepts hopen hcompleted
    obtain ⟨hfirst, hafter⟩ := (guarded_append ..).mp h
    have hbetween := ((guarded_append ..).mp hfirst).2.2
    -- The record is of attempt `c.attempt` or later from the payload on.
    have hk := attempt_le_run hbetween (attempt_le_of_queued hrow haccepts)
    rw [← runSteps_cons, ← runSteps_append] at hk
    rw [runSteps_append] at hcompleted
    obtain ⟨earlier, completion, later, hafter', hfrom⟩ :=
      exists_completesFrom hafter hk hopen hcompleted
    refine ⟨earlier, completion, later, hafter', ?_⟩
    rw [runSteps_append]
    exact hfrom
  · rintro before row after r k rfl hr hk hlt
    have hok := ((guarded_append ..).mp h).2.1
    rw [runSteps_snoc]
    exact payload_of_stale hok hr hk hlt

/-- A payload of a child's outcome, as `record_continuation_queued` writes it. -/
def queuedRow (eventId : String) (sequence attempt : ℕ) (outcome : String) : LedgerRow :=
  ⟨eventId, sequence, 100 + attempt, .continuationQueued
    ⟨"group-1", "agent-1", some "agent-1", some outcome, .queued, 100 + attempt, none, none,
      none, attempt, .empty⟩⟩

/-- A delivery, its completion and a correction are in order. -/
theorem revisions_never_go_back_correction :
    ∃ rows : List LedgerRow, rows.length = 3 ∧ RunsInOrder {} rows ∧
      ∃ r, (runSteps applyLedgerRow {} rows).continuations.get "group-1/agent-1" = some r ∧
        1 ≤ r.attempt := by
  have hrows : RunsInOrder {}
      [queuedRow "continuation_queued:group-1:agent-1:1" 1 1 "failed",
        ⟨"continuation_completed:group-1:agent-1:200:1", 2, 200,
          .continuationCompleted "group-1" "agent-1" 200 none 1⟩,
        queuedRow "continuation_queued:group-1:agent-1:2" 3 2 "completed"] :=
    ⟨by decide, by decide, by decide, trivial⟩
  refine ⟨_, rfl, hrows, ?_⟩
  exact (revisions_never_go_back {} _ hrows "group-1/agent-1").1 [_] _ rfl _ rfl

/-- **A stale payload replaces a newer one.** A correction is queued as attempt 2, and the payload
of attempt 1 reaches the ledger after it: the record goes back to attempt 1 and to the payload that
was corrected. -/
theorem stale_payload_replaces_newer :
    ((runSteps applyLedgerRow {}
        [queuedRow "continuation_queued:group-1:agent-1:2" 1 2 "completed"]).continuations.get
      "group-1/agent-1").map (fun r => (r.attempt, r.prompt)) = some (2, some "completed") ∧
    ((runSteps applyLedgerRow {}
        [queuedRow "continuation_queued:group-1:agent-1:2" 1 2 "completed",
          queuedRow "continuation_queued:group-1:agent-1:1" 2 1 "failed"]).continuations.get
      "group-1/agent-1").map (fun r => (r.attempt, r.prompt)) = some (1, some "failed") := by
  decide

end SupervisorState

end Octos.Supervision
