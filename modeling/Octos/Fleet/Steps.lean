import Octos.Fleet.Steps.Planning
import Octos.Fleet.Steps.Recovery

/-!
# Every operation is a sequence of effects

Each call of the store, whether it takes effect or not, is a finite sequence of effects of the
kinds its operation may have (`Op.exec_steps`), provided the attempt id it mints is fresh. Along a
run whose minted ids are pairwise distinct every mint is fresh, so the invariant of the store
holds after it (`run_inv`).
-/

namespace Octos.Fleet

open FleetKernelStore

/-- The effects a call may have. -/
def Op.Touches : Op → Label → Prop
  | .createFleet f _ _ _ _ _ _, l => l = .newFleet f
  | .createPlan p, l => l = .newPlan p.fleetId
  | .createFleetWithPlan _ _ _ _ _ _ p _, l => genesisLabel p.fleetId l
  | .addChild f _ _ _, l => l = .newChild f
  | .markReady f _ _, l => l = .move f .promote
  | .resolveAndCollectReady f _, l => l = .move f .promote
  | .cancelFleet f _, l => l = .cancel f
  | .launchChild f _ _ _ _ _ _ _, l => l = .events ∨ l = .move f .launch
  | .markRunning _ _, l => ∃ f, l = .move f .start
  | .completeChild f _ _ _ _ _ _ _ _, l => l = .events ∨ l = .move f .complete
  | .recordEscalation f _ _ _ _ _ _ _, l => l = .events ∨ l = .move f .escalate
  | .replan f _ _ _, l => replanLabel f l
  | .retitleTask f _ _ _ _, l => l = .editPlan f
  | .setTaskGrant f _ _ _ _, l => grantLabel f l
  | .denyEscalation f _ _ _ _, l => denyLabel f l
  | .reconcile _ _, l => reconcileLabel l
  | .appendEvent _, l | .claimNext _ _ _ _, l | .ack _ _ _, l | .appendDecision _ _ _ _ _, l =>
    l = .events

variable {s s' : FleetKernelStore} {f c a e : String} {t n o ttl : UInt64} {out : LaunchOutcome}

theorem launchChild_safe
    (hok : s.launchChild f c t n o ttl a e = .ok (s', out)) : keyComponentIsSafe c = true := by
  obtain ⟨⟨⟩, hsafe, -⟩ := bind_eq_ok.mp hok
  exact ensureKeySafe_eq_ok.mp hsafe c (by simp)

theorem attempts_get_of_fresh (h : KernelInv s) (hc : keyComponentIsSafe c = true)
    (hfresh : ∀ k A, s.attempts.get k = some A → A.attemptId ≠ a) :
    s.attempts.get (attemptKey c a) = none := by
  refine Option.eq_none_iff_forall_not_mem.mpr fun A hA => ?_
  exact hfresh _ A hA (h.attempt_ids hc hA).2

/-- **A launch is a launch move and an event, or nothing.** -/
theorem launchChild_steps (h : KernelInv s)
    (hfresh : ∀ k A, s.attempts.get k = some A → A.attemptId ≠ a)
    (hok : s.launchChild f c t n o ttl a e = .ok (s', out)) :
    StepsIn Effect (fun l => l = .events ∨ l = .move f .launch) s s' := by
  rcases launchChild_spec h (attempts_get_of_fresh h (launchChild_safe hok) hfresh) hok with
    ⟨rfl, -⟩ | ⟨-, F, C, F', C', A', outbox, seq, rfl, -, -, hcell, hm, -, rfl⟩
  · exact .refl _
  · exact StepsIn.trans (.single (.inr rfl) (.cell hcell nofun hm))
      (.single (.inl rfl) (.events _ outbox s.decisionLog))

theorem markRunning_steps (h : KernelInv s) {out : MarkRunningOutcome}
    (hok : s.markRunning c a = .ok (s', out)) :
    StepsIn Effect (fun l => ∃ f, l = .move f .start) s s' := by
  rcases markRunning_spec h hok with
    ⟨rfl, -⟩ | ⟨-, F, C, A, F', C', A', -, -, -, -, hcell, hm, rfl⟩
  · exact .refl _
  · exact .single ⟨_, rfl⟩ (.cell hcell nofun hm)

variable {k : MoveKind}

/-- **A settlement is a settling move and an event, or nothing.** -/
theorem FleetKernelStore.SettleStep.steps {out : CompleteOutcome}
    (hs : SettleStep s k f c a e t o s' out) (hprom : k ≠ .promote) :
    StepsIn Effect (fun l => l = .events ∨ l = .move f k) s s' := by
  rcases hs with ⟨rfl, -⟩ | ⟨-, F, C, A, F', C', A', outbox, seq, hf, -, hcell, hm, -, -, rfl⟩
  · exact .refl _
  · obtain rfl := hf.fleetId_eq
    exact StepsIn.trans (.single (.inr rfl) (.cell hcell (fun he => absurd he hprom) hm))
      (.single (.inl rfl) (.events _ outbox s.decisionLog))

variable {op : Op}

/-- **Every call is a sequence of the effects of its operation.** -/
theorem Op.exec_steps (h : KernelInv s) (hfresh : op.Fresh s) :
    StepsIn Effect op.Touches s (op.exec s) := by
  rcases op.exec_cases s with hsame | hp
  · rw [hsame]
    exact .refl s
  generalize op.exec s = s' at hp
  cases op with obtain ⟨_, hok⟩ := map_fst_eq_ok.mp hp
  | createFleet => exact createFleet_steps hok
  | createPlan => exact createPlan_steps hok
  | createFleetWithPlan => exact createFleetWithPlan_steps hok
  | addChild => exact addChild_steps hok
  | markReady => exact markReady_steps h hok
  | resolveAndCollectReady => exact resolveAndCollectReady_steps h hok
  | cancelFleet => exact cancelFleet_steps hok
  | launchChild => exact launchChild_steps h (hfresh _ rfl) hok
  | markRunning => exact markRunning_steps h hok
  | completeChild => exact (completeChild_spec h hok).steps nofun
  | recordEscalation => exact (recordEscalation_spec h hok).steps nofun
  | replan =>
    rcases replan_spec h hok with ⟨rfl, -⟩ | ⟨_, _, _, _, _, -, -, -, hsteps⟩
    · exact .refl _
    · exact hsteps
  | retitleTask => exact retitleTask_steps h hok
  | setTaskGrant => exact setTaskGrant_steps h hok
  | denyEscalation => exact denyEscalation_steps h hok
  | reconcile nowMs ownerEpoch =>
    obtain ⟨s₁, out, hok', hrec, -⟩ := reconcile_spec h nowMs ownerEpoch
    cases hok'.symm.trans hok
    exact hrec.steps
  | appendEvent => exact appendEvent_steps hok
  | claimNext => exact claimNext_steps hok
  | ack => exact ack_steps hok
  | appendDecision => exact appendDecision_steps hok

theorem Op.exec_inv (h : KernelInv s) (hfresh : op.Fresh s) : KernelInv (op.exec s) :=
  h.steps (Op.exec_steps h hfresh)

/-! ## Fresh mints along a run -/

theorem Move.eq_launch {F F' : FleetRecord} {C C' : FleetChildRecord}
    {a' : Attempt} (h : Move k F C none F' C' (some a')) : k = .launch := by
  cases h
  rfl

theorem Effect.attemptIds {l : Label} (he : Effect l s s') (hl : ∀ f, l ≠ .move f .launch) :
    ∀ k A', s'.attempts.get k = some A' →
      ∃ A, s.attempts.get k = some A ∧ A.attemptId = A'.attemptId := by
  cases he with
  | @cell _ k₀ F F' C C' A A' hc hdeps hm =>
    refine KernelInv.forall_attempts_setCell (fun k a _ ha => ⟨a, ha, rfl⟩) fun a' ha' => ?_
    obtain ⟨hrow, -⟩ := hc.attempt a' ha'
    rw [hm.cellStep.child.2.1]
    rcases hm.cellStep.attempt with ⟨-, hn⟩ | ⟨rfl, b, hb, -⟩ | ⟨a, b, rfl, hb, -, -, -, hid, -⟩
    · rw [hn] at ha'
      cases ha'
    · subst hb
      exact absurd (by rw [hm.eq_launch]) (hl C.fleetId)
    · cases hb.symm.trans ha'
      exact ⟨a, hrow, hid.symm⟩
  | _ => exact fun k A' hA' => ⟨A', hA', rfl⟩

/-- After a call every attempt is under a key that had one of the same id, but for the one the
call minted. -/
theorem Op.exec_attemptIds (h : KernelInv s) (hfresh : op.Fresh s) :
    ∃ k₀, ∀ k A', (op.exec s).attempts.get k = some A' →
      (k = k₀ ∧ op.mints = some A'.attemptId) ∨
        ∃ A, s.attempts.get k = some A ∧ A.attemptId = A'.attemptId := by
  by_cases hlaunch : ∃ f, op.Touches (.move f .launch)
  · -- the launch writes the minted id and keeps the others
    obtain ⟨f, hf⟩ := hlaunch
    cases op with
    | launchChild f c t n o ttl a e =>
      rcases Op.exec_cases s (.launchChild f c t n o ttl a e) with hsame | hp
      · rw [hsame]
        exact ⟨"", fun k A' hA' => .inr ⟨A', hA', rfl⟩⟩
      · obtain ⟨out, hok⟩ := map_fst_eq_ok.mp hp
        rcases launchChild_spec h
          (attempts_get_of_fresh h (launchChild_safe hok) (hfresh a rfl)) hok with
          ⟨hsame, -⟩ | ⟨-, F, C, F', C', A, outbox, seq, -, -, hid, -, -, -, hs'⟩
        · rw [hsame]
          exact ⟨"", fun k A' hA' => .inr ⟨A', hA', rfl⟩⟩
        · rw [hs']
          refine ⟨attemptKey C'.childId A.attemptId, Table.forall_insert ?_ ?_⟩
          · exact fun k A' _ hA' => .inr ⟨A', hA', rfl⟩
          · exact .inl ⟨rfl, by rw [hid]; rfl⟩
    | markRunning =>
      obtain ⟨g, hg⟩ := hf
      cases hg
    | reconcile => obtain ⟨g, hg | hg⟩ := hf <;> cases hg
    | _ => simp [Op.Touches, genesisLabel, replanLabel, grantLabel, denyLabel] at hf
  · have hnone : ∀ a, op.Touches a → ∀ f, a ≠ .move f .launch := by
      rintro a ha f rfl
      exact hlaunch ⟨f, ha⟩
    -- Along the effects of any other call the ids stay.
    refine ⟨"", fun k A' hA' => .inr ?_⟩
    refine (Op.exec_steps h hfresh).invariant
      (P := fun t => ∀ k A', t.attempts.get k = some A' →
        ∃ A, s.attempts.get k = some A ∧ A.attemptId = A'.attemptId)
      (fun a t t' ha he ih k A' hA' => ?_) (fun k A' hA' => ⟨A', hA', rfl⟩) k A' hA'
    obtain ⟨A₁, hA₁, hid₁⟩ := he.attemptIds (hnone a ha) k A' hA'
    obtain ⟨A₂, hA₂, hid₂⟩ := ih k A₁ hA₁
    exact ⟨A₂, hA₂, hid₂.trans hid₁⟩

variable {ops : List Op}

theorem guarded_fresh_from (h : KernelInv s) (hd : MintsDistinct ops)
    (hnew : ∀ a ∈ ops.filterMap Op.mints, ∀ k A, s.attempts.get k = some A → A.attemptId ≠ a) :
    Guarded Op.exec (fun s op => op.Fresh s) s ops := by
  induction ops generalizing s with
  | nil => trivial
  | cons op ops ih =>
    have hfresh : op.Fresh s := fun a ha => hnew a (by
      rw [List.filterMap_cons_some ha]
      exact List.mem_cons_self)
    have hrest : MintsDistinct ops ∧ ∀ b, op.mints = some b → b ∉ ops.filterMap Op.mints := by
      unfold MintsDistinct at hd ⊢
      cases hm : op.mints with
      | none =>
        rw [List.filterMap_cons_none hm] at hd
        exact ⟨hd, nofun⟩
      | some b =>
        rw [List.filterMap_cons_some hm, List.nodup_cons] at hd
        refine ⟨hd.2, ?_⟩
        rintro _ ⟨rfl⟩
        exact hd.1
    have hmem : ∀ a ∈ ops.filterMap Op.mints, a ∈ (op :: ops).filterMap Op.mints := fun a ha => by
      obtain ⟨o, ho, hoa⟩ := List.mem_filterMap.mp ha
      exact List.mem_filterMap.mpr ⟨o, List.mem_cons_of_mem _ ho, hoa⟩
    refine ⟨hfresh, ih (Op.exec_inv h hfresh) hrest.1 fun a ha k A hA => ?_⟩
    obtain ⟨k₀, hids⟩ := Op.exec_attemptIds h hfresh
    rcases hids k A hA with ⟨-, hmint⟩ | ⟨A₀, hA₀, hid⟩
    · rintro rfl
      exact hrest.2 _ hmint ha
    · rw [← hid]
      exact hnew a (hmem a ha) k A₀ hA₀

/-- **Along a run with distinct mints every mint is fresh.** -/
theorem guarded_fresh (hd : MintsDistinct ops) :
    Guarded Op.exec (fun s op => op.Fresh s) .empty ops :=
  guarded_fresh_from .empty hd fun a _ k A hA => by simp [FleetKernelStore.empty] at hA

/-- **The invariant holds after every run with distinct mints.** -/
theorem run_inv (hd : MintsDistinct ops) : KernelInv (run ops) :=
  (guarded_fresh hd).invariant (fun _ _ h hfresh => Op.exec_inv h hfresh) .empty

end Octos.Fleet
