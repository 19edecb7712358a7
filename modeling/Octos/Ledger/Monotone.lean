import Octos.Ledger.Goals

/-!
# Terminal goals and monotone counters

No writer of the ledger takes a goal out of a terminal status, lowers one of its counters or lowers
its revision, however stale the snapshot it was called with. A writer that finds a row either
leaves it or runs its arm on it, so the arms are compared with the row they replace, one by one,
and the two statement forms carry the comparison to the tables.

## Main results

* `goal_row_monotone`: every sequence of calls advances the goals
-/

namespace Octos.Ledger

open GoalLedger SqlNum

/-- A row keeps its terminal status and none of its counters falls. -/
structure GoalRow.Advances (r r' : GoalRow) : Prop where
  complete : r.status = "complete" → r'.status = "complete"
  cleared : r.status = "cleared" → r'.status = "cleared"
  tokensUsed : r.tokensUsed ≤ r'.tokensUsed
  timeUsedSeconds : r.timeUsedSeconds ≤ r'.timeUsedSeconds
  revision : r.revision ≤ r'.revision

namespace GoalRow.Advances

theorem refl (r : GoalRow) : r.Advances r :=
  ⟨id, id, le_refl _, le_refl _, le_refl _⟩

theorem trans {r r' r'' : GoalRow} (h : r.Advances r') (h' : r'.Advances r'') : r.Advances r'' where
  complete hr := h'.complete (h.complete hr)
  cleared hr := h'.cleared (h.cleared hr)
  tokensUsed := le_trans h.tokensUsed h'.tokensUsed
  timeUsedSeconds := le_trans h.timeUsedSeconds h'.timeUsedSeconds
  revision := le_trans h.revision h'.revision

end GoalRow.Advances

variable {t : Table String GoalRow} {r r' : GoalRow}

/-! ## The arms -/

variable {excluded : GoalRow}

theorem upsertArm_advances (h : upsertArm excluded r = some r') : r.Advances r' := by
  unfold upsertArm at h
  split_ifs at h with hguard
  obtain ⟨-, htokens, hcomplete, hcleared⟩ := hguard
  cases h
  exact
    { complete := fun hr => by_contra fun hne => hcomplete ⟨hr, hne⟩
      cleared := fun hr => by_contra fun hne => hcleared ⟨hr, hne⟩
      tokensUsed := htokens
      timeUsedSeconds := le_max_left ..
      revision := le_refl _ }

theorem casArm_advances {new expected : String} {expectedAt at' : SqlNum}
    (h : casArm new expected expectedAt at' r = some r') : r.Advances r' := by
  unfold casArm at h
  split_ifs at h with hguard
  obtain ⟨-, -, hopen⟩ := hguard
  cases h
  exact ⟨fun hr => absurd hr hopen.1, fun hr => absurd hr hopen.2, le_refl _, le_refl _, le_refl _⟩

theorem statusArm_advances {status : String} {expected at' : SqlNum}
    (h : statusArm status expected at' r = some r') : r.Advances r' := by
  unfold statusArm at h
  split_ifs at h with hguard
  obtain ⟨-, hopen⟩ := hguard
  cases h
  exact ⟨fun hr => absurd hr hopen.1, fun hr => absurd hr hopen.2, le_refl _, le_refl _, le_add ..⟩

theorem stampArm_advances (h : stampArm excluded r = some r') : r.Advances r' := by
  cases h
  exact
    { complete := fun hr => (if_pos hr).trans hr
      cleared := fun hr => if_neg (by rw [hr]; decide)
      tokensUsed := le_max_left ..
      timeUsedSeconds := le_max_left ..
      revision := le_refl _ }

theorem settleArm_advances {b d bt dt at' : SqlNum}
    (h : settleArm b d bt dt at' r = some r') : r.Advances r' := by
  cases h
  exact
    { complete := id
      cleared := id
      tokensUsed := le_trans (le_max_left ..) (le_add ..)
      timeUsedSeconds := le_trans (le_max_left ..) (le_add ..)
      revision := le_refl _ }

/-! ## The statements -/

/-- Every row of `t` is there in `t'`, kept or advanced. -/
def GoalsAdvance (t t' : Table String GoalRow) : Prop :=
  ∀ g r, t.get g = some r → ∃ r', t'.get g = some r' ∧ r.Advances r'

theorem GoalsAdvance.refl (t : Table String GoalRow) : GoalsAdvance t t :=
  fun _ r h => ⟨r, h, .refl r⟩

theorem GoalsAdvance.trans {t' t'' : Table String GoalRow} (h : GoalsAdvance t t')
    (h' : GoalsAdvance t' t'') : GoalsAdvance t t'' := by
  intro g r hr
  obtain ⟨r', hr', hadv⟩ := h g r hr
  obtain ⟨r'', hr'', hadv'⟩ := h' g r' hr'
  exact ⟨r'', hr'', hadv.trans hadv'⟩

theorem GoalsAdvance.insert {g : String} {new : GoalRow}
    (h : ∀ old, t.get g = some old → old.Advances new) : GoalsAdvance t (t.insert g new) := by
  intro g' r hr
  by_cases hg : g' = g
  · subst hg
    exact ⟨new, t.get_insert_self g' new, h r hr⟩
  · exact ⟨r, (t.get_insert_of_ne new hg).trans hr, .refl r⟩

variable {arm : GoalRow → Option GoalRow}

theorem insertGoal_goalsAdvance (row : GoalRow) (harm : ∀ {r r'}, arm r = some r' → r.Advances r') :
    GoalsAdvance t (insertGoal t row arm).1 := by
  unfold insertGoal
  cases hold : t.get row.goalId with
  | none => exact .insert fun old h => by rw [hold] at h; cases h
  | some r =>
    cases hnew : arm r with
    | none => simpa only [hnew] using GoalsAdvance.refl t
    | some =>
      simp only [hnew]
      exact .insert fun old h => by rw [hold] at h; cases h; exact harm hnew

theorem updateGoal_goalsAdvance (g : String) (harm : ∀ {r r'}, arm r = some r' → r.Advances r') :
    GoalsAdvance t (updateGoal t g arm).1 := by
  unfold updateGoal
  cases hnew : (t.get g).bind arm with
  | none => exact .refl t
  | some =>
    obtain ⟨r, hold, hr'⟩ := Option.bind_eq_some_iff.mp hnew
    exact .insert fun old h => by rw [hold] at h; cases h; exact harm hr'

theorem Write.Effect.goalsAdvance {w : Write} {t' : Table String GoalRow} (h : w.Effect t t') :
    GoalsAdvance t t' := by
  have hnothing : ∀ {r r' : GoalRow}, (fun _ : GoalRow => (none : Option GoalRow)) r = some r' →
      r.Advances r' := nofun
  cases h with
  | createGoal | createGoalIfAbsent => exact insertGoal_goalsAdvance _ hnothing
  | upsertGoal => exact insertGoal_goalsAdvance _ upsertArm_advances
  | casGoalStatus => exact updateGoal_goalsAdvance _ casArm_advances
  | updateGoalStatus | commitStateWithAudit =>
    exact updateGoal_goalsAdvance _ statusArm_advances
  | stampGoalCleared => exact insertGoal_goalsAdvance _ stampArm_advances
  | settleClearedGoalCostDelta => exact updateGoal_goalsAdvance _ settleArm_advances

/-! ## Runs -/

variable (L : GoalLedger)

theorem Write.exec_goalsAdvance (w : Write) : GoalsAdvance L.goals (w.exec L).goals := by
  unfold Write.exec
  cases h : w.perform L with
  | ok => exact (Write.perform_effect h).goalsAdvance
  | error => exact .refl L.goals

theorem run_goalsAdvance (ws : List Write) :
    GoalsAdvance L.goals (runSteps (fun L w => w.exec L) L ws).goals := by
  induction ws generalizing L with
  | nil => exact .refl L.goals
  | cons w ws ih => exact (w.exec_goalsAdvance L).trans (ih (w.exec L))

/-- **A goal that is complete or cleared stays so, and its tokens, its time and its revision never
fall**, whatever calls of the writers follow and whatever they were called with. -/
theorem goal_row_monotone (L : GoalLedger) (ws : List Write) {g : String} {r : GoalRow}
    (hrow : L.goals.get g = some r) :
    ∃ r', (runSteps (fun L w => w.exec L) L ws).goals.get g = some r' ∧
      (r.status = "complete" → r'.status = "complete") ∧
      (r.status = "cleared" → r'.status = "cleared") ∧
      r.tokensUsed ≤ r'.tokensUsed ∧ r.timeUsedSeconds ≤ r'.timeUsedSeconds ∧
      r.revision ≤ r'.revision := by
  obtain ⟨r', hr', hadv⟩ := run_goalsAdvance L ws g r hrow
  exact ⟨r', hr', hadv.complete, hadv.cleared, hadv.tokensUsed, hadv.timeUsedSeconds, hadv.revision⟩

/-- A snapshot of a goal that was still active, taken before its last turns. -/
def staleGoal : Goal where
  goalId := "g"
  objective := "ship"
  status := "active"
  tokensUsed := 3
  tokenBudget := 100
  timeUsedSeconds := 2
  continuationsUsed := 0
  revision := 0
  createdAtMs := 1
  updatedAtMs := 5

/-- A ledger whose only goal was completed after the snapshot. -/
def doneLedger : GoalLedger :=
  (Write.createGoal { staleGoal with status := "complete", tokensUsed := 7, revision := 2 }).exec
    emptyLedger

/-- Calls that come late: a stale upsert, a fenced update at the current revision, a stale clear and
a charge. -/
def lateWrites : List Write :=
  [.upsertGoal staleGoal, .updateGoalStatus "g" "active" 2 9, .stampGoalCleared staleGoal,
   .settleClearedGoalCostDelta "g" 3 4 2 1 9]

theorem goal_row_monotone_lateWrites :
    ∃ r, doneLedger.goals.get "g" = some r ∧ r.status = "complete" ∧
      ∃ r', (runSteps (fun L w => w.exec L) doneLedger lateWrites).goals.get "g" = some r' ∧
        (r.status = "complete" → r'.status = "complete") ∧
        (r.status = "cleared" → r'.status = "cleared") ∧
        r.tokensUsed ≤ r'.tokensUsed ∧ r.timeUsedSeconds ≤ r'.timeUsedSeconds ∧
        r.revision ≤ r'.revision := by
  obtain ⟨r, hrow, hstatus⟩ :
      ∃ r, doneLedger.goals.get "g" = some r ∧ r.status = "complete" := ⟨_, rfl, by decide⟩
  exact ⟨r, hrow, hstatus, goal_row_monotone doneLedger lateWrites hrow⟩

end Octos.Ledger
