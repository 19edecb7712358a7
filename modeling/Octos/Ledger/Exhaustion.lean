import Octos.Ledger.Goals

/-!
# Active goals within their budget

Every writer that stores a status passes it through the activation guard, together with the tokens
and the budget it stores or finds, so no such writer leaves an active row whose budget is spent.
The settlement of a late charge stores tokens and no status. It is the one writer that can take an
active row past its budget, and it does so exactly when the charged total reaches it.

## Main results

* `active_within_budget_iff`: all states of a run are within budget iff no call overcharges
-/

namespace Octos.Ledger

open GoalLedger Write

/-- The row is active although its budget is positive and spent. -/
def GoalRow.ActiveExhausted (r : GoalRow) : Prop :=
  r.status = "active" ∧ 0 < r.tokenBudget.val ∧ r.tokenBudget ≤ r.tokensUsed

/-- No goal is active with its budget spent. -/
def GoalLedger.WithinBudget (L : GoalLedger) : Prop :=
  ∀ g r, L.goals.get g = some r → ¬ r.ActiveExhausted

/-- The call settles a charge on an active row with a budget, and the total reaches the budget. -/
def Write.overcharges (L : GoalLedger) : Write → Bool
  | .settleClearedGoalCostDelta g b d bt dt at' =>
    (SqlNum.ofU64 bt).isSome && (SqlNum.ofU64 dt).isSome && (SqlNum.ofU64 at').isSome &&
      (SqlNum.ofU64 b).any fun base => (SqlNum.ofU64 d).any fun delta =>
        (L.goals.get g).any fun r =>
          r.status = "active" ∧ 0 < r.tokenBudget.val ∧
            r.tokenBudget ≤ (max r.tokensUsed base).add delta
  | _ => false

/-! ## The arms -/

variable {status : String}

theorem activated_eq_active {budget tokens : SqlNum}
    (h : activated status budget tokens = "active") : ¬ (0 < budget.val ∧ budget ≤ tokens) := by
  unfold activated at h
  split_ifs at h with hguard
  · exact absurd h (by decide)
  · intro hspent
    exact hguard ⟨h, hspent⟩

variable {row excluded r r' : GoalRow}

theorem insertedRow_not_exhausted {goal : Goal} (h : insertedRow goal = .ok row) :
    ¬ row.ActiveExhausted := by
  obtain ⟨bound, -, h⟩ := bind_eq_ok.mp h
  cases h
  rintro ⟨hactive, hspent⟩
  exact activated_eq_active hactive hspent

theorem upsertArm_not_exhausted (hrow : ¬ excluded.ActiveExhausted)
    (h : upsertArm excluded r = some r') : ¬ r'.ActiveExhausted := by
  unfold upsertArm at h
  split_ifs at h
  cases h
  -- status, tokens and budget are those of the snapshot
  exact hrow

theorem casArm_not_exhausted {new expected : String} {expectedAt at' : SqlNum}
    (h : casArm new expected expectedAt at' r = some r') : ¬ r'.ActiveExhausted := by
  unfold casArm at h
  split_ifs at h
  cases h
  rintro ⟨hactive, hspent⟩
  exact activated_eq_active hactive hspent

theorem statusArm_not_exhausted {expected at' : SqlNum}
    (h : statusArm status expected at' r = some r') : ¬ r'.ActiveExhausted := by
  unfold statusArm at h
  split_ifs at h
  cases h
  rintro ⟨hactive, hspent⟩
  exact activated_eq_active hactive hspent

theorem stampArm_not_exhausted (h : stampArm excluded r = some r') : ¬ r'.ActiveExhausted := by
  cases h
  rintro ⟨hactive, -⟩
  dsimp only at hactive
  split_ifs at hactive with hcomplete
  · rw [hcomplete] at hactive
    exact absurd hactive (by decide)
  · exact absurd hactive (by decide)

variable {t : Table String GoalRow} {arm : GoalRow → Option GoalRow}

theorem insertGoal_withinBudget
    (ht : ∀ g r, t.get g = some r → ¬ r.ActiveExhausted) (hrow : ¬ row.ActiveExhausted)
    (harm : ∀ {r r'}, arm r = some r' → ¬ r'.ActiveExhausted) :
    ∀ g r, (insertGoal t row arm).1.get g = some r → ¬ r.ActiveExhausted := by
  unfold insertGoal
  cases hold : t.get row.goalId with
  | none => exact Table.forall_insert (fun g r _ => ht g r) hrow
  | some old =>
    cases hnew : arm old with
    | none => simpa only [hnew] using ht
    | some =>
      simp only [hnew]
      exact Table.forall_insert (fun g r _ => ht g r) (harm hnew)

variable {g : String}

theorem updateGoal_withinBudget_iff (ht : ∀ g r, t.get g = some r → ¬ r.ActiveExhausted) :
    (∀ g' r, (updateGoal t g arm).1.get g' = some r → ¬ r.ActiveExhausted) ↔
      ∀ r r', t.get g = some r → arm r = some r' → ¬ r'.ActiveExhausted := by
  unfold updateGoal
  cases hnew : (t.get g).bind arm with
  | none =>
    refine iff_of_true ht ?_
    intro r r' hold hr'
    rw [hold, Option.bind_some, hr'] at hnew
    cases hnew
  | some new =>
    obtain ⟨old, hold, harm⟩ := Option.bind_eq_some_iff.mp hnew
    constructor
    · intro hall r r' hr hr'
      cases hold.symm.trans hr
      cases harm.symm.trans hr'
      exact hall g new (t.get_insert_self g new)
    · intro hstored
      exact Table.forall_insert (fun g r _ => ht g r) (hstored old new hold harm)

/-! ## Calls and runs -/

variable {L : GoalLedger}

theorem Write.overcharges_settle {b d bt dt at' : UInt64}
    {B D BT DT u : SqlNum} (hb : bindU64 b = .ok B) (hd : bindU64 d = .ok D)
    (hbt : bindU64 bt = .ok BT) (hdt : bindU64 dt = .ok DT) (hu : bindU64 at' = .ok u) :
    (settleClearedGoalCostDelta g b d bt dt at').overcharges L = true ↔
      ∃ r r', L.goals.get g = some r ∧ settleArm B D BT DT u r = some r' ∧ r'.ActiveExhausted := by
  rw [bindU64_eq_ok] at hb hd hbt hdt hu
  simp only [overcharges, hb, hd, hbt, hdt, hu, Option.isSome_some, Bool.and_self,
    Bool.true_and, Option.any_some, Option.any_eq_true, decide_eq_true_eq]
  constructor
  · rintro ⟨r, hr, hactive, hbudget, hspent⟩
    exact ⟨r, _, hr, rfl, hactive, hbudget, hspent⟩
  · rintro ⟨r, _, hr, ⟨rfl⟩, hactive, hbudget, hspent⟩
    exact ⟨r, hr, hactive, hbudget, hspent⟩

theorem Write.perform_of_overcharges {w : Write} (h : w.overcharges L = true) :
    ∃ L', w.perform L = .ok L' := by
  cases w with
  | settleClearedGoalCostDelta g =>
    simp only [overcharges, Bool.and_eq_true, Option.isSome_iff_exists, Option.any_eq_true] at h
    obtain ⟨⟨⟨⟨BT, hbt⟩, DT, hdt⟩, u, hu⟩, B, hb, D, hd, -⟩ := h
    exact ⟨_, perform_settle g (bindU64_eq_ok.mpr hb) (bindU64_eq_ok.mpr hd)
      (bindU64_eq_ok.mpr hbt) (bindU64_eq_ok.mpr hdt) (bindU64_eq_ok.mpr hu)⟩
  | _ => cases h

/-- **A call keeps the ledger within budget iff it does not overcharge.** -/
theorem Write.exec_withinBudget_iff (hL : L.WithinBudget) (w : Write) :
    (w.exec L).WithinBudget ↔ w.overcharges L = false := by
  unfold exec
  cases h : w.perform L with
  | error =>
    refine iff_of_true hL ?_
    by_contra hover
    obtain ⟨L', hok⟩ := perform_of_overcharges (Bool.not_eq_false _ ▸ hover)
    rw [h] at hok
    cases hok
  | ok L' =>
    have heffect := perform_effect h
    obtain ⟨t, htasks, hfindings, hdecisions⟩ := L'
    simp only [WithinBudget] at heffect ⊢
    -- Only the charge of a settlement can leave an active goal over its budget.
    cases heffect with
    | createGoal hrow | createGoalIfAbsent hrow =>
      exact iff_of_true (insertGoal_withinBudget hL (insertedRow_not_exhausted hrow) (by simp)) rfl
    | upsertGoal hrow =>
      have hnew := insertedRow_not_exhausted hrow
      exact iff_of_true (insertGoal_withinBudget hL hnew (upsertArm_not_exhausted hnew)) rfl
    | casGoalStatus =>
      exact iff_of_true ((updateGoal_withinBudget_iff hL).mpr fun _ _ _ => casArm_not_exhausted) rfl
    | updateGoalStatus | commitStateWithAudit =>
      exact iff_of_true
        ((updateGoal_withinBudget_iff hL).mpr fun _ _ _ => statusArm_not_exhausted) rfl
    | stampGoalCleared =>
      refine iff_of_true (insertGoal_withinBudget hL ?_ stampArm_not_exhausted) rfl
      rintro ⟨hactive, -⟩
      dsimp only at hactive
      exact absurd hactive (by decide)
    | settleClearedGoalCostDelta hb hd hbt hdt hu =>
      rw [updateGoal_withinBudget_iff hL, ← Bool.not_eq_true, overcharges_settle hb hd hbt hdt hu]
      push Not
      rfl

/-- **Every state of a run is within budget iff no call of the run overcharges** the state it meets.
All calls but the settlement of a charge are free of that. -/
theorem active_within_budget_iff {L : GoalLedger} (hL : L.WithinBudget) (ws : List Write) :
    (∀ us, us <+: ws → (runSteps (fun L w => w.exec L) L us).WithinBudget) ↔
      Guarded (fun L w => w.exec L) (fun L w => w.overcharges L = false) L ws := by
  constructor
  · intro hall
    induction ws generalizing L with
    | nil => trivial
    | cons w ws ih =>
      have hfirst := hall [w] (by simp)
      refine ⟨(exec_withinBudget_iff hL w).mp hfirst, ih hfirst ?_⟩
      intro us hus
      exact hall (w :: us) (List.cons_prefix_cons.mpr ⟨rfl, hus⟩)
  · rintro hguard us ⟨vs, rfl⟩
    have hus := ((guarded_append ..).mp hguard).1
    exact hus.invariant (fun L w hin hok => (exec_withinBudget_iff hin w).mpr hok) hL

def halfSpent : Goal where
  goalId := "g"
  objective := "ship"
  status := "active"
  tokensUsed := 5
  tokenBudget := 10
  timeUsedSeconds := 0
  continuationsUsed := 0
  revision := 0
  createdAtMs := 1
  updatedAtMs := 1

theorem emptyLedger_withinBudget : emptyLedger.WithinBudget := by
  intro g r hr
  cases hr

theorem active_within_budget_iff_halfSpent :
    emptyLedger.WithinBudget ∧ ∀ us, us <+:
        [createGoal halfSpent, .settleClearedGoalCostDelta "g" 5 4 0 0 2,
          .updateGoalStatus "g" "active" 0 3] →
      (runSteps (fun L w => w.exec L) emptyLedger us).WithinBudget :=
  ⟨emptyLedger_withinBudget, (active_within_budget_iff emptyLedger_withinBudget _).mpr (by decide)⟩

/-- **A late charge takes an active goal past its budget.** -/
theorem settle_exhausts_active :
    ∃ r, (runSteps (fun L w => w.exec L) emptyLedger
        [createGoal halfSpent, .settleClearedGoalCostDelta "g" 5 7 0 0 2]).goals.get "g" = some r ∧
      r.status = "active" ∧ 0 < r.tokenBudget.val ∧ r.tokenBudget ≤ r.tokensUsed :=
  ⟨_, rfl, by decide, by decide, by decide⟩

end Octos.Ledger
