import Octos.Fleet.Conservation

/-!
# Admission

A launch is admitted when its projected tokens fit the budget beside what is reserved and
committed. A settlement moves tokens from the reserved to the committed account; as long as
workers report no more than was reserved for them, the sum of the two never grows but by an
admitted launch. So no order of launches, retries, interruptions and replans over-commits the
budget, and no account ever leaves the range of its integer type.

## Main results

* `admission`: every run that reports within its reservations stays within budget
-/

namespace Octos.Fleet

open FleetKernelStore

variable {s s' : FleetKernelStore}

/-- The call, if it reports the tokens of an attempt, reports no more than the attempt has
reserved. -/
def ReportsWithin (s : FleetKernelStore) (op : Op) : Prop :=
  ∀ r ∈ op.settling, ∀ A ∈ s.attempts.get (attemptKey r.2.1 r.2.2.1), r.2.2.2.1 ≤ A.reservedTokens

instance : ∀ s op, Decidable (ReportsWithin s op) := fun s op => by
  unfold ReportsWithin
  infer_instance

/-- The reserved and the committed tokens of the fleet fit its budget. -/
def FleetRecord.Within (F : FleetRecord) : Prop :=
  F.budget.tokensReserved.toNat + F.budget.tokensCommitted.toNat ≤ F.budget.tokenBudget.toNat

def WithinBudget (s : FleetKernelStore) : Prop :=
  ∀ f F, s.fleets.get f = some F → F.Within

variable {k : MoveKind}

theorem Move.within {F F' : FleetRecord} {C C' : FleetChildRecord}
    {A A' : Option Attempt} (hm : Move k F C A F' C' A') (hcomp : k ≠ .complete)
    (hesc : k ≠ .escalate) (hF : F.Within) : F'.Within := by
  unfold FleetRecord.Within at hF ⊢
  cases hm with
  | launch _ _ _ _ _ _ hadm =>
    have hle := (FleetBudget.admits_iff ..).mp hadm
    dsimp only
    omega
  | settle _ _ _ _ _ hk =>
    cases hk with
    | complete => exact absurd rfl hcomp
    | escalate => exact absurd rfl hesc
  | reclaim reserved now _ _ _ _ hr
  | restartLive =>
    dsimp only
    omega
  | _ => exact hF

theorem Effect.withinBudget {l : Label} (he : Effect l s s')
    (hl : ∀ f, l ≠ .move f .complete ∧ l ≠ .move f .escalate) (hw : WithinBudget s) :
    WithinBudget s' := by
  cases he with
  | newFleet _ _ _ hres hcom =>
    refine Table.forall_insert (fun f F _ hF => hw f F hF) ?_
    simp [FleetRecord.Within, hres, hcom]
  | cancel now hF | bump generation now hF =>
    have hwithin := hw _ _ hF
    exact Table.forall_insert (fun f F _ hF => hw f F hF) hwithin
  | @cell _ k F F' C C' A A' hc _ hm =>
    refine Table.forall_insert (fun f F _ hF => hw f F hF) (hm.within ?_ ?_ (hw _ _ hc.fleet))
    · rintro rfl
      exact (hl C.fleetId).1 rfl
    · rintro rfl
      exact (hl C.fleetId).2 rfl
  | _ => exact hw

/-- A settlement of no more than the reservation keeps the fleets within budget: what it commits,
it releases first. -/
theorem FleetKernelStore.SettleStep.withinBudget {f c a e : String} {t o : UInt64}
    {out : CompleteOutcome}
    (hs : SettleStep s k f c a e t o s' out) (hw : WithinBudget s)
    (hrep : ∀ A, s.attempts.get (attemptKey c a) = some A → t ≤ A.reservedTokens) :
    WithinBudget s' := by
  rcases hs with ⟨rfl, -⟩ | ⟨-, F, C, A, F', C', A', outbox, seq, hf, hcom, hcell, hm, hset, -, rfl⟩
  · exact hw
  refine Table.forall_insert (fun g G _ hG => hw g G hG) ?_
  have hF := hw _ F hf.fleet
  have hrow := hf.attempt
  rw [hf.childId_eq, hf.attemptId_eq] at hrow
  have hle : t.toNat ≤ A.reservedTokens.toNat := UInt64.le_iff_toNat_le.mp (hrep A hrow)
  have hres := hm.cellStep.reserved
  have hlive : A.status.isLive = true := by
    rw [hf.running]
    rfl
  simp only [Option.elim_some, Attempt.held, hlive, hset.2, if_true,
    Bool.false_eq_true, if_false] at hres
  unfold FleetRecord.Within at hF ⊢
  rw [hm.cellStep.fleet.2.2.2.2, hcom]
  omega

variable {op : Op}

theorem Op.exec_withinBudget (h : KernelInv s) (hw : WithinBudget s)
    (hfresh : op.Fresh s) (hrep : ReportsWithin s op) : WithinBudget (op.exec s) := by
  by_cases hop : op.settling = none
  · exact (Op.exec_steps h hfresh).invariant
      (fun _ _ _ hl he ih => he.withinBudget (Op.touches_of_settling_eq_none hop hl) ih) hw
  rcases op.exec_cases s with hsame | hp
  · rw [hsame]
    exact hw
  cases op with
  | completeChild =>
    obtain ⟨_, hok⟩ := map_fst_eq_ok.mp hp
    exact (completeChild_spec h hok).withinBudget hw fun A hA => hrep _ rfl A hA
  | recordEscalation =>
    obtain ⟨_, hok⟩ := map_fst_eq_ok.mp hp
    exact (recordEscalation_spec h hok).withinBudget hw fun A hA => hrep _ rfl A hA
  | _ => exact absurd rfl hop

theorem Op.perform_no_overflow (h : KernelInv s) (hw : WithinBudget s)
    (hrep : ReportsWithin s op) {e : StoreError} (he : op.perform s = .error e) :
    e.isTokenArithmetic = false := by
  by_contra harith
  rw [Bool.not_eq_false] at harith
  cases hop : op.settling with
  | none =>
    rw [Op.perform_benign h hop e he] at harith
    cases harith
  | some r =>
    obtain ⟨f, c, a, t, o⟩ := r
    obtain ⟨-, F, C, A, hf, hover⟩ := settlement_error h hop he harith
    -- the reported tokens are part of the fleet's reservation, the child's of its committed ones
    have hrow := hf.attempt
    rw [hf.childId_eq, hf.attemptId_eq] at hrow
    have hle : t.toNat ≤ A.reservedTokens.toNat := UInt64.le_iff_toNat_le.mp (hrep _ hop A hrow)
    have hres := hf.reserved_le h
    have hF : F.Within := hw _ F hf.fleet
    have hchild : C.tokensCommitted.toNat ≤ F.budget.tokensCommitted.toNat := by
      rw [h.committed _ F hf.fleet]
      simpa [committedBy] using Table.le_sum (committedBy C.fleetId) hf.child
    have hlt := F.budget.tokenBudget.toNat_lt
    unfold FleetRecord.Within at hF
    omega

/-- **Admission.** Along every run with distinct minted ids in which each completion and each
escalation reports no more tokens than its attempt has reserved, every fleet's reserved and
committed tokens fit its budget, and no call that keeps to this fails because a token account
leaves its range. -/
theorem admission {ops : List Op} (hd : MintsDistinct ops)
    (hrep : Guarded Op.exec ReportsWithin .empty ops) :
    (∀ f F, (run ops).fleets.get f = some F →
      F.budget.tokensReserved.toNat + F.budget.tokensCommitted.toNat ≤ F.budget.tokenBudget.toNat) ∧
    ∀ (op : Op) (e : StoreError), ReportsWithin (run ops) op →
      op.perform (run ops) = .error e → e.isTokenArithmetic = false := by
  obtain ⟨h, hw⟩ : KernelInv (run ops) ∧ WithinBudget (run ops) :=
    ((guarded_fresh hd).and hrep).invariant (P := fun t => KernelInv t ∧ WithinBudget t)
      (fun _ _ ht hok =>
        ⟨Op.exec_inv ht.1 hok.1, Op.exec_withinBudget ht.1 ht.2 hok.1 hok.2⟩)
      ⟨.empty, by simp [WithinBudget, FleetKernelStore.empty]⟩
  exact ⟨hw, fun op e hop he => Op.perform_no_overflow h hw hop he⟩

/-- The run with two launches reports within its reservations. -/
theorem admission_twoLaunches :
    MintsDistinct twoLaunches ∧ Guarded Op.exec ReportsWithin .empty twoLaunches ∧
    ∀ f F, (run twoLaunches).fleets.get f = some F →
      F.budget.tokensReserved.toNat + F.budget.tokensCommitted.toNat ≤ F.budget.tokenBudget.toNat :=
  ⟨by decide, by decide, (admission (by decide) (by decide)).1⟩

end Octos.Fleet
