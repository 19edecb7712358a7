import Octos.Fleet.Steps.Errors

/-!
# Budget conservation and the single live attempt

What the invariant of the store says about the budget of a fleet and about the attempts of a
child, in every state a run with distinct minted attempt ids reaches.

## Main results

* `budget_conservation`: the accounts of a fleet are the tokens of its attempts and children
* `single_live_attempt`: a live attempt is the current one of its child
-/

namespace Octos.Fleet

/-- **Budget conservation.** After every run with distinct minted ids, each fleet's reserved tokens
are those of its leased or running attempts and its committed tokens those of its children; and no
call that follows reports a reservation underflow. -/
theorem budget_conservation {ops : List Op} (hd : MintsDistinct ops) :
    (∀ f F, (run ops).fleets.get f = some F →
      F.budget.tokensReserved.toNat = (run ops).attempts.sum (heldBy f) ∧
      F.budget.tokensCommitted.toNat = (run ops).children.sum (committedBy f)) ∧
    ∀ (op : Op) (e : StoreError), op.perform (run ops) = .error e →
      e.isReservationUnderflow = false := by
  have h := run_inv hd
  constructor
  · intro f F hF
    exact ⟨h.reserved f F hF, h.committed f F hF⟩
  · intro op e he
    exact Op.perform_no_underflow h he

/-- A fleet with two children, of which one is settled and the other holds a lease. -/
def twoLaunches : List Op :=
  [.createFleet "f" "k" none "p" 100 false 0, .addChild "f" "c" [] 0, .addChild "f" "d" [] 0,
    .launchChild "f" "c" 10 0 1 5 "a" "e", .launchChild "f" "d" 20 0 1 5 "b" "e",
    .markRunning "c" "a",
    .completeChild "f" "c" "a" (.accepted []) ⟨"", true, 7, [], none⟩ 7 1 3 "e"]

/-- The settled child's tokens are committed, the other's are reserved. -/
theorem budget_conservation_twoLaunches :
    MintsDistinct twoLaunches ∧
    ((run twoLaunches).fleets.get "f").map
      (fun F => (F.budget.tokensReserved, F.budget.tokensCommitted)) = some (20, 7) ∧
    (∀ f F, (run twoLaunches).fleets.get f = some F →
      F.budget.tokensReserved.toNat = (run twoLaunches).attempts.sum (heldBy f) ∧
      F.budget.tokensCommitted.toNat = (run twoLaunches).children.sum (committedBy f)) ∧
    ∀ (op : Op) (e : StoreError), op.perform (run twoLaunches) = .error e →
      e.isReservationUnderflow = false :=
  ⟨by decide, by decide, budget_conservation (by decide)⟩

/-! ## The single live attempt -/

theorem agrees_iff {c : ChildStatus} {a : AttemptStatus} (h : agrees c a = true) :
    (c = .launching ↔ a = .leased) ∧ (c = .running ↔ a = .running) := by
  revert h
  cases c <;> cases a <;> simp [agrees]

theorem KernelInv.exists_current {s : FleetKernelStore} (h : KernelInv s) {k : String}
    {C : FleetChildRecord} (hC : s.children.get k = some C) (hfly : C.status.inFlight = true) :
    ∃ a A, C.currentAttemptId = some a ∧ s.attempts.get (attemptKey C.childId a) = some A ∧
      agrees C.status A.status = true := by
  cases hcur : C.currentAttemptId with
  | none =>
    rw [h.idle k C hC hcur] at hfly
    cases hfly
  | some a =>
    obtain ⟨A, hA, -, hag⟩ := h.current k C hC a hcur
    exact ⟨a, A, rfl, hA, hag⟩

/-- **The single live attempt.** After every run with distinct minted ids: a leased or running
attempt is the current one of its child and carries its fleet's generation; a child is launching
exactly when its current attempt is leased, and running exactly when it is running; two live
attempts of one child are one; and a planned, ready, blocked or cancelled child has no current
attempt. -/
theorem single_live_attempt {ops : List Op} (hd : MintsDistinct ops) :
    (∀ k A, (run ops).attempts.get k = some A → A.status.isLive = true →
      (∃ C, (run ops).children.get (childKey A.fleetId A.childId) = some C ∧
        C.currentAttemptId = some A.attemptId) ∧
      ∃ F, (run ops).fleets.get A.fleetId = some F ∧ A.generation = F.generation) ∧
    (∀ k C, (run ops).children.get k = some C →
      (C.status = .launching ↔ ∃ a A, C.currentAttemptId = some a ∧
        (run ops).attempts.get (attemptKey C.childId a) = some A ∧ A.status = .leased) ∧
      (C.status = .running ↔ ∃ a A, C.currentAttemptId = some a ∧
        (run ops).attempts.get (attemptKey C.childId a) = some A ∧ A.status = .running) ∧
      (C.status = .planned ∨ C.status = .ready ∨ C.status = .blocked ∨ C.status = .cancelled →
        C.currentAttemptId = none)) ∧
    ∀ k k' A A', (run ops).attempts.get k = some A → (run ops).attempts.get k' = some A' →
      A.status.isLive = true → A'.status.isLive = true →
      A.fleetId = A'.fleetId → A.childId = A'.childId → A = A' := by
  have h := run_inv hd
  refine ⟨fun k A hA hl => ⟨(h.live k A hA hl).2, (h.live k A hA hl).1⟩, ?_, ?_⟩
  · intro k C hC
    refine ⟨⟨fun hst => ?_, ?_⟩, ⟨fun hst => ?_, ?_⟩, fun hst => ?_⟩
    · obtain ⟨a, A, hcur, hA, hag⟩ := h.exists_current hC (by rw [hst]; rfl)
      exact ⟨a, A, hcur, hA, (agrees_iff hag).1.mp hst⟩
    · rintro ⟨a, A, hcur, hA, hst⟩
      obtain ⟨A₀, hA₀, -, hag⟩ := h.current k C hC a hcur
      cases hA₀.symm.trans hA
      exact (agrees_iff hag).1.mpr hst
    · obtain ⟨a, A, hcur, hA, hag⟩ := h.exists_current hC (by rw [hst]; rfl)
      exact ⟨a, A, hcur, hA, (agrees_iff hag).2.mp hst⟩
    · rintro ⟨a, A, hcur, hA, hst⟩
      obtain ⟨A₀, hA₀, -, hag⟩ := h.current k C hC a hcur
      cases hA₀.symm.trans hA
      exact (agrees_iff hag).2.mpr hst
    · -- a current attempt would fit the status
      refine Option.eq_none_iff_forall_not_mem.mpr fun a ha => ?_
      obtain ⟨A, -, -, hag⟩ := h.current k C hC a ha
      rcases hst with hst | hst | hst | hst <;> · rw [hst] at hag; cases hag
  · intro k k' A A' hA hA' hl hl' hf hc
    obtain ⟨-, C, hC, hcur⟩ := h.live k A hA hl
    obtain ⟨-, C', hC', hcur'⟩ := h.live k' A' hA' hl'
    rw [← hf, ← hc] at hC'
    cases hC.symm.trans hC'
    have hid : A.attemptId = A'.attemptId := Option.some.inj (hcur.symm.trans hcur')
    rw [(h.attemptRow k A hA).1, hc, hid, ← (h.attemptRow k' A' hA').1, hA'] at hA
    exact (Option.some.inj hA).symm

/-- The launched child of the run above is launching, with its leased attempt. -/
theorem single_live_attempt_twoLaunches :
    MintsDistinct twoLaunches ∧
    ((run twoLaunches).children.get (childKey "f" "d")).map
      (fun C => (C.status, C.currentAttemptId)) = some (.launching, some "b") ∧
    ∀ k k' A A', (run twoLaunches).attempts.get k = some A →
      (run twoLaunches).attempts.get k' = some A' → A.status.isLive = true →
      A'.status.isLive = true → A.fleetId = A'.fleetId → A.childId = A'.childId → A = A' :=
  ⟨by decide, by decide, (single_live_attempt (by decide)).2.2⟩

end Octos.Fleet
