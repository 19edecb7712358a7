import Octos.Fleet.Escalation

/-!
# Boot recovery of a run

What one call of `reconcile` leaves of the attempts and children of a reachable store.

## Main results

* `recovery`: it takes back exactly the stranded attempts, and a second call does nothing
-/

namespace Octos.Fleet

open FleetKernelStore Option

/-- **Boot recovery.** After `reconcile` in any reachable store, no live fleet has a live attempt
with a stale lease. An attempt of a live fleet whose lease holds is as it was and, if it is live, so
is its child; its tokens stay among the reserved ones, which are those of the live attempts. The
report lists the attempts that were live and are interrupted, once each, and their children, where
the fleet is live, are ready and have no attempt. A second call changes and reports nothing. -/
theorem recovery {ops : List Op} (hd : MintsDistinct ops) (nowMs ownerEpoch : UInt64) :
    ∃ s' out, (run ops).reconcile nowMs ownerEpoch = .ok (s', out) ∧
      (∀ k A F, s'.attempts.get k = some A → A.status.isLive = true →
        s'.fleets.get A.fleetId = some F → fleetIsLive F = true →
        leaseStale A nowMs ownerEpoch = false) ∧
      (∀ k A F, (run ops).attempts.get k = some A → (run ops).fleets.get A.fleetId = some F →
        fleetIsLive F = true → leaseStale A nowMs ownerEpoch = false →
        s'.attempts.get k = some A ∧ (A.status.isLive = true →
          ∃ C, C.currentAttemptId = some A.attemptId ∧
            (run ops).children.get (childKey A.fleetId A.childId) = some C ∧
            s'.children.get (childKey A.fleetId A.childId) = some C)) ∧
      (∀ f F, s'.fleets.get f = some F →
        F.budget.tokensReserved.toNat = s'.attempts.sum (heldBy f)) ∧
      out.Nodup ∧
      (∀ r, r ∈ out ↔ ∃ k A A', (run ops).attempts.get k = some A ∧ A.status.isLive = true ∧
        s'.attempts.get k = some A' ∧ A'.status = .interrupted ∧
        r = ⟨A.fleetId, A.childId, A.attemptId⟩) ∧
      (∀ r ∈ out, ∀ F, (run ops).fleets.get r.fleetId = some F → fleetIsLive F = true →
        ∃ C, s'.children.get (childKey r.fleetId r.childId) = some C ∧ C.status = .ready ∧
          C.currentAttemptId = none) ∧
      s'.reconcile nowMs ownerEpoch = .ok (s', []) := by
  have h := run_inv hd
  obtain ⟨s', out, hok, hrec, hall⟩ := reconcile_spec h nowMs ownerEpoch
  have h' := h.steps hrec.steps
  have hno : ∀ k A, s'.attempts.get k = some A → ¬ Stranded nowMs ownerEpoch s' A :=
    fun k A hA => not_stranded_after hrec hall hA
  -- a reported attempt was stranded, and was the current one of its child
  have hcur : ∀ k A, (run ops).attempts.get k = some A → A.status.isLive = true →
      ∃ C, (run ops).children.get (childKey A.fleetId A.childId) = some C ∧
        C.fleetId = A.fleetId ∧ C.childId = A.childId ∧ C.currentAttemptId = some A.attemptId := by
    intro k A hA hlive
    obtain ⟨⟨F, hF, -⟩, C, hC, hcur⟩ := h.live k A hA hlive
    obtain ⟨hf, hc⟩ := h.child_ids (h.fleetRow _ F hF).2.1 hC
    exact ⟨C, hC, hf, hc, hcur⟩
  have hout : ∀ k A, (run ops).attempts.get k = some A → interrupted A ∈ out →
      Stranded nowMs ownerEpoch (run ops) A := by
    intro k A hA hmem
    obtain ⟨k', B, hB, heq, hs⟩ := hrec.report _ hmem
    obtain ⟨-, hc, ha⟩ := InterruptedAttempt.mk.inj heq
    rw [(h.attemptRow k' B hB).1, hc, ha, ← (h.attemptRow k A hA).1, hA] at hB
    cases hB
    exact hs
  refine ⟨s', out, hok, ?_, ?_, h'.reserved, hrec.nodup, fun r => ⟨fun hr => ?_, ?_⟩, ?_,
    reconcile_of_not_stranded h' hno⟩
  · intro k A F hA hlive hF hfleet
    by_contra hstale
    refine hno k A hA ⟨hlive, fun _ => ?_⟩
    simpa using hstale
  · intro k A F hA hF hfleet hfresh
    have hkeep : interrupted A ∉ out := by
      intro hmem
      have hstale := (hout k A hA hmem).2 (by rw [hF, any_some, hfleet])
      rw [hfresh] at hstale
      cases hstale
    refine ⟨by rw [hrec.attempts, hA, map_some, attemptAfter, if_neg hkeep], fun hlive => ?_⟩
    obtain ⟨C, hC, hf, hc, ha⟩ := hcur k A hA hlive
    refine ⟨C, ha, hC, ?_⟩
    rw [hrec.children, hC, map_some, childAfter, if_neg]
    intro hmem
    obtain ⟨r, hr, heq⟩ := List.mem_map.mp hmem
    obtain ⟨k', B, hB, rfl, hs⟩ := hrec.report r hr
    obtain ⟨D, hD, hf', hc', ha'⟩ := hcur k' B hB hs.1
    obtain ⟨hfB, hcB⟩ := Prod.mk.inj heq
    rw [show B.fleetId = A.fleetId from hfB.trans hf, show B.childId = A.childId from hcB.trans hc,
      hC] at hD
    cases hD
    rw [interrupted, ← hf', ← hc', ← some.inj (ha.symm.trans ha'), hf, hc] at hr
    exact hkeep hr
  · obtain ⟨k, A, hA, rfl, hs⟩ := hrec.report r hr
    refine ⟨k, A, attemptAfter nowMs out A, hA, hs.1, ?_, ?_, rfl⟩
    · rw [hrec.attempts, hA, map_some]
    · rw [attemptAfter, if_pos hr]
  · rintro ⟨k, A, A', hA, hlive, hA', hst, rfl⟩
    by_contra hmem
    change interrupted A ∉ out at hmem
    rw [hrec.attempts, hA, map_some, attemptAfter, if_neg hmem] at hA'
    cases hA'
    rw [hst] at hlive
    cases hlive
  · intro r hr F hF hfleet
    obtain ⟨k, A, hA, rfl, hs⟩ := hrec.report r hr
    obtain ⟨C, hC, hf, hc, -⟩ := hcur k A hA hs.1
    have hmem : (C.fleetId, C.childId) ∈ out.map fun r => (r.fleetId, r.childId) :=
      List.mem_map.mpr ⟨_, hr, by rw [interrupted, hf, hc]⟩
    dsimp only [interrupted] at hF ⊢
    rw [hrec.children, hC, map_some, childAfter, if_pos hmem, hf, hF, any_some,
      hfleet]
    exact ⟨_, rfl, rfl, rfl⟩

/-- The worker's first attempt ended with a request, which was granted; the second one has a
shorter lease. -/
def relaunchedRun : List Op :=
  escalatedRun ++ [.setTaskGrant "f" 0 "c" wideGrant 3, .launchChild "f" "c" 10 3 1 1 "b" "e"]

theorem recovery_relaunchedRun :
    ∃ s' out, (run relaunchedRun).reconcile 5 1 = .ok (s', out) ∧
      s'.reconcile 5 1 = .ok (s', []) := by
  obtain ⟨s', out, hok, -, -, -, -, -, -, hagain⟩ := @recovery relaunchedRun (by decide) 5 1
  exact ⟨s', out, hok, hagain⟩

/-- The lease of the first attempt still holds when the second one is taken back from the child. -/
theorem child_of_unexpired_lease_touched :
    ((run relaunchedRun).attempt "c" "a").map
        (fun A => (leaseStale A 5 1, A.status)) = some (false, .interrupted) ∧
    ((run relaunchedRun).child "f" "c").map (fun C => (C.status, C.currentAttemptId)) =
      some (.launching, some "b") ∧
    ((run relaunchedRun).reconcile 5 1).toOption.map (fun r =>
      ((r.1.child "f" "c").map fun C => (C.status, C.currentAttemptId), r.2)) =
      some (some (.ready, none), [⟨"f", "c", "b"⟩]) := by
  decide

end Octos.Fleet
