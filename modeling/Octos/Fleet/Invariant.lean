import Octos.Fleet.Lifecycle

/-!
# The invariant of the store

The joint invariant of the fleets, children, attempts and plans tables, and the theorem that every
effect keeps it. It ties four things together: a row owns its key, the current attempt of a child
is there and fits the child's status, a live attempt is the current one of its child and carries
the fleet's generation, and the fleet's budget counts exactly the live reservations and the
committed tokens of its children.

The outbox and the decision log do not enter.

## Main results

* `KernelInv.effect`: every effect keeps the invariant
-/

namespace Octos.Fleet

open Table FleetKernelStore

/-- The tokens the attempt holds reserved of the fleet's budget. -/
def heldBy (fleetId : String) (A : Attempt) : ℕ := if A.fleetId = fleetId then A.held else 0

/-- The tokens the child has committed of the fleet's budget. -/
def committedBy (fleetId : String) (C : FleetChildRecord) : ℕ :=
  if C.fleetId = fleetId then C.tokensCommitted.toNat else 0

structure KernelInv (s : FleetKernelStore) : Prop where
  fleetRow : ∀ f F, s.fleets.get f = some F →
    F.fleetId = f ∧ keyComponentIsSafe f = true ∧ F.schemaVersion ≤ schemaVersion
  childRow : ∀ k C, s.children.get k = some C →
    k = childKey C.fleetId C.childId ∧ keyComponentIsSafe C.childId = true ∧
      C.schemaVersion ≤ schemaVersion
  attemptRow : ∀ k A, s.attempts.get k = some A →
    k = attemptKey A.childId A.attemptId ∧ keyComponentIsSafe A.childId = true ∧
      A.schemaVersion ≤ schemaVersion
  planRow : ∀ f P, s.plans.get f = some P → P.fleetId = f ∧ P.schemaVersion ≤ schemaVersion
  childFleet : ∀ k C, s.children.get k = some C → ∃ F, s.fleets.get C.fleetId = some F
  planFleet : ∀ f P, s.plans.get f = some P → ∃ F, s.fleets.get f = some F
  /-- A child without a current attempt is not in flight. -/
  idle : ∀ k C, s.children.get k = some C → C.currentAttemptId = none → C.status.inFlight = false
  /-- The current attempt of a child is there and fits its status. -/
  current : ∀ k C, s.children.get k = some C → ∀ a, C.currentAttemptId = some a →
    ∃ A, s.attempts.get (attemptKey C.childId a) = some A ∧ A.fleetId = C.fleetId ∧
      agrees C.status A.status = true
  /-- A live attempt is the current one of its child, of the fleet's generation. -/
  live : ∀ k A, s.attempts.get k = some A → A.status.isLive = true →
    (∃ F, s.fleets.get A.fleetId = some F ∧ A.generation = F.generation) ∧
    ∃ C, s.children.get (childKey A.fleetId A.childId) = some C ∧
      C.currentAttemptId = some A.attemptId
  /-- A request is pending exactly while the child is blocked. -/
  escalation : ∀ k C, s.children.get k = some C → (C.status = .blocked ↔ C.pendingEscalation.isSome)
  /-- The reserved tokens are those of the live attempts. -/
  reserved : ∀ f F, s.fleets.get f = some F →
    F.budget.tokensReserved.toNat = s.attempts.sum (heldBy f)
  /-- The committed tokens are those of the children. -/
  committed : ∀ f F, s.fleets.get f = some F →
    F.budget.tokensCommitted.toNat = s.children.sum (committedBy f)

variable {a : AttemptStatus} {c : ChildStatus}

theorem agrees_inFlight (h : agrees c a = true) (hl : a.isLive = true) : c.inFlight = true := by
  revert h hl
  cases c <;> cases a <;> simp [agrees, AttemptStatus.isLive, ChildStatus.inFlight]

theorem agrees_live_false (h : agrees c a = true) (hc : c.inFlight = false) : a.isLive = false := by
  by_contra hl
  rw [agrees_inFlight h (by simpa using hl)] at hc
  cases hc

theorem agrees_live (h : agrees c a = true) (hc : c.inFlight = true) : a.isLive = true := by
  revert h hc
  cases c <;> cases a <;> simp [agrees, AttemptStatus.isLive, ChildStatus.inFlight]

namespace KernelInv

variable {s : FleetKernelStore}

theorem empty : KernelInv .empty := by
  constructor <;> simp [FleetKernelStore.empty]

/-! ## Reads under the invariant -/

section

variable (h : KernelInv s)
include h

variable {k f c : String} {C : FleetChildRecord}

theorem safe_fleetId (hC : s.children.get k = some C) : keyComponentIsSafe C.fleetId = true := by
  obtain ⟨F, hF⟩ := h.childFleet k C hC
  exact (h.fleetRow _ F hF).2.1

theorem child_ids (hf : keyComponentIsSafe f = true)
    (hC : s.children.get (childKey f c) = some C) : C.fleetId = f ∧ C.childId = c := by
  obtain ⟨h₁, h₂⟩ :=
    (childKey_inj hf (h.safe_fleetId hC)).mp (h.childRow _ C hC).1
  exact ⟨h₁.symm, h₂.symm⟩

theorem attempt_ids {a : String} (hc : keyComponentIsSafe c = true) {A : Attempt}
    (hA : s.attempts.get (attemptKey c a) = some A) : A.childId = c ∧ A.attemptId = a := by
  obtain ⟨hk, hA', -⟩ := h.attemptRow _ A hA
  obtain ⟨h₁, h₂⟩ := (attemptKey_inj hc hA').mp hk
  exact ⟨h₁.symm, h₂.symm⟩

theorem fleet_eq (f : String) : s.fleet f = s.fleets.get f :=
  bind_decodeRow_filter fun F hF => ⟨(h.fleetRow f F hF).2.2, by simpa using (h.fleetRow f F hF).1⟩

theorem child_eq (hf : keyComponentIsSafe f = true) (c : String) :
    s.child f c = s.children.get (childKey f c) :=
  bind_decodeRow_filter fun C hC => ⟨(h.childRow _ C hC).2.2, by simpa using h.child_ids hf hC⟩

theorem attempt_eq (hc : keyComponentIsSafe c = true) (a : String) :
    s.attempt c a = s.attempts.get (attemptKey c a) :=
  bind_decodeRow_filter fun A hA => ⟨(h.attemptRow _ A hA).2.2, by simpa using h.attempt_ids hc hA⟩

theorem plan_eq (f : String) : s.plan f = s.plans.get f :=
  bind_decodeRow_filter fun P hP => ⟨(h.planRow f P hP).2, by simpa using (h.planRow f P hP).1⟩

theorem not_child_of_no_fleet (hf : s.fleets.get f = none)
    (hC : s.children.get k = some C) : C.fleetId ≠ f := by
  rintro rfl
  obtain ⟨F, hF⟩ := h.childFleet k C hC
  rw [hf] at hF
  cases hF

/-- The live attempt of a child, and what is reserved for the others of its fleet. -/
structure LiveAttempt (s : FleetKernelStore) (F : FleetRecord) (C : FleetChildRecord) (A : Attempt)
    (reserved : UInt64) : Prop where
  current : C.currentAttemptId = some A.attemptId
  attempt : s.attempts.get (attemptKey C.childId A.attemptId) = some A
  fleetId_eq : A.fleetId = C.fleetId
  childId_eq : A.childId = C.childId
  live : A.status.isLive = true
  reserved : checkedSub F.budget.tokensReserved A.reservedTokens = some reserved

variable {F : FleetRecord}

theorem inFlight_attempt (hF : s.fleets.get C.fleetId = some F)
    (hC : s.children.get (childKey C.fleetId C.childId) = some C)
    (hfly : C.status.inFlight = true) :
    ∃ A reserved, LiveAttempt s F C A reserved := by
  cases hcur : C.currentAttemptId with
  | none =>
    rw [h.idle _ C hC hcur] at hfly
    cases hfly
  | some a =>
    obtain ⟨A, hA, hfid, hag⟩ := h.current _ C hC a hcur
    obtain ⟨hcid, rfl⟩ := h.attempt_ids (h.childRow _ C hC).2.1 hA
    have hlive := agrees_live hag hfly
    -- the attempt is one of those the fleet's reservation counts
    have hle : A.reservedTokens.toNat ≤ F.budget.tokensReserved.toNat := by
      have hle := le_sum (heldBy C.fleetId) hA
      rw [← h.reserved _ F hF] at hle
      simpa [heldBy, Attempt.held, hfid, hlive] using hle
    cases hr : checkedSub F.budget.tokensReserved A.reservedTokens with
    | none => exact absurd (checkedSub_eq_none.mp hr) (not_lt.mpr hle)
    | some reserved => exact ⟨A, reserved, hcur, hA, hfid, hcid, hlive, hr⟩

theorem fleetChildren_eq (f : String) :
    s.fleetChildren f = s.children.values.filter fun C => C.fleetId = f := by
  refine filterMap_entries fun k C hC => ?_
  obtain ⟨hk, -, hver⟩ := h.childRow k C hC
  rw [decodeRow_eq_some.mpr ⟨hver, rfl⟩, Option.filter_some]
  simp [hk]

theorem prefixChildren_eq (hf : keyComponentIsSafe f = true) :
    s.prefixChildren f = s.children.values.filter fun C => C.fleetId = f := by
  refine filterMap_entries fun k C hC => ?_
  obtain ⟨hk, -, hver⟩ := h.childRow k C hC
  rw [hk, childKey, stripPrefix_joinNul (nulFree_of_safe hf) (nulFree_of_safe (h.safe_fleetId hC)),
    decodeRow_eq_some.mpr ⟨hver, rfl⟩]
  by_cases hfid : C.fleetId = f <;> simp [hfid]

theorem undecodableIds_eq (hf : keyComponentIsSafe f = true) : s.undecodableIds f = [] := by
  refine List.filterMap_eq_nil_iff.mpr fun p hp => ?_
  have hC := mem_entries.mp hp
  obtain ⟨hk, -, hver⟩ := h.childRow _ _ hC
  rw [hk, childKey, stripPrefix_joinNul (nulFree_of_safe hf) (nulFree_of_safe (h.safe_fleetId hC)),
    decodeRow_eq_some.mpr ⟨hver, rfl⟩]
  by_cases hfid : p.2.fleetId = f <;> simp [hfid]

theorem ownedChildren_eq : s.ownedChildren = s.children.values := by
  refine (filterMap_entries fun k C hC => ?_).trans
    (List.filter_eq_self.mpr fun (C : FleetChildRecord) _ => (rfl : (fun _ => true) C = true))
  obtain ⟨hk, -, hver⟩ := h.childRow k C hC
  rw [decodeRow_eq_some.mpr ⟨hver, rfl⟩, Option.filter_some]
  simp [hk]

theorem mem_children :
    C ∈ s.children.values ↔ s.children.get (childKey C.fleetId C.childId) = some C := by
  constructor
  · intro hC
    obtain ⟨k, hk⟩ := mem_values.mp hC
    rw [← (h.childRow k C hk).1, hk]
  · intro hC
    exact mem_values.mpr ⟨_, hC⟩

theorem children_pairwise : s.children.values.Pairwise fun C D =>
    childKey C.fleetId C.childId ≠ childKey D.fleetId D.childId :=
  (values_pairwise fun k C hC => (h.childRow k C hC).1.symm).imp fun hlt => hlt.ne

/-! ## Effects that touch no cell -/

theorem events (outbox : Table String OutboxEvent) (decisionLog : Table String DecisionEntry) :
    KernelInv { s with outbox, decisionLog } :=
  ⟨h.fleetRow, h.childRow, h.attemptRow, h.planRow, h.childFleet, h.planFleet, h.idle, h.current,
    h.live, h.escalation, h.reserved, h.committed⟩

theorem setPlan {P : DurablePlan} (hF : s.fleets.get P.fleetId = some F)
    (hver : P.schemaVersion ≤ schemaVersion) :
    KernelInv { s with plans := s.plans.insert P.fleetId P } :=
  { h with
    planRow := forall_insert (fun f P _ => h.planRow f P) ⟨rfl, hver⟩
    planFleet := forall_insert (fun f P _ => h.planFleet f P) ⟨F, hF⟩ }

theorem setFleet {F G : FleetRecord} (hF : s.fleets.get G.fleetId = some F)
    (hver : G.schemaVersion = F.schemaVersion) (hb : G.budget = F.budget)
    (hg : G.generation = F.generation ∨ ∀ k A, s.attempts.get k = some A →
      A.fleetId = G.fleetId → A.status.isLive = false) :
    KernelInv { s with fleets := s.fleets.insert G.fleetId G } := by
  obtain ⟨hid, hsafe, hv⟩ := h.fleetRow _ F hF
  refine
    { h with
      fleetRow := forall_insert (fun f F _ => h.fleetRow f F) ⟨rfl, hsafe, hver ▸ hv⟩
      childFleet := fun k C hC => exists_get_insert G (h.childFleet k C hC)
      planFleet := fun f P hP => exists_get_insert G (h.planFleet f P hP)
      live := fun k A hA hl => ?_
      reserved := forall_insert (fun f F _ => h.reserved f F) (by rw [hb, h.reserved _ F hF])
      committed :=
        forall_insert (fun f F _ => h.committed f F) (by rw [hb, h.committed _ F hF]) }
  obtain ⟨⟨F₀, hF₀, hg₀⟩, hC₀⟩ := h.live k A hA hl
  refine ⟨?_, hC₀⟩
  by_cases hf : A.fleetId = G.fleetId
  · rcases hg with hg | hg
    · rw [hf, hF] at hF₀
      cases hF₀
      exact ⟨G, by simp [hf], by rw [hg₀, hg]⟩
    · rw [hg k A hA hf] at hl
      cases hl
  · exact ⟨F₀, by rw [get_insert_of_ne _ _ hf, hF₀], hg₀⟩

theorem newFleet (hF : s.fleets.get F.fleetId = none)
    (hsafe : keyComponentIsSafe F.fleetId = true) (hver : F.schemaVersion ≤ schemaVersion)
    (hr : F.budget.tokensReserved = 0) (hc : F.budget.tokensCommitted = 0) :
    KernelInv { s with fleets := s.fleets.insert F.fleetId F } := by
  refine
    { h with
      fleetRow := forall_insert (fun f F _ => h.fleetRow f F) ⟨rfl, hsafe, hver⟩
      childFleet := fun k C hC => exists_get_insert F (h.childFleet k C hC)
      planFleet := fun f P hP => exists_get_insert F (h.planFleet f P hP)
      live := fun k A hA hl => ?_
      reserved := forall_insert (fun f F _ => h.reserved f F) ?_
      committed := forall_insert (fun f F _ => h.committed f F) ?_ }
  · obtain ⟨⟨F₀, hF₀, hg₀⟩, hC₀⟩ := h.live k A hA hl
    have hne : A.fleetId ≠ F.fleetId := by
      intro he
      rw [he, hF] at hF₀
      cases hF₀
    exact ⟨⟨F₀, by rw [get_insert_of_ne _ _ hne, hF₀], hg₀⟩, hC₀⟩
  · -- a live attempt would have a fleet row
    rw [hr, eq_comm]
    refine sum_eq_zero fun k A hA => ?_
    unfold heldBy Attempt.held
    split_ifs with hf hl
    · obtain ⟨⟨F₀, hF₀, -⟩, -⟩ := h.live k A hA hl
      rw [hf, hF] at hF₀
      cases hF₀
    · rfl
    · rfl
  · rw [hc, eq_comm]
    refine sum_eq_zero fun k C hC => ?_
    exact if_neg (h.not_child_of_no_fleet hF hC)

theorem newChild
    (hF : s.fleets.get C.fleetId = some F) (hsafe : keyComponentIsSafe C.childId = true)
    (hver : C.schemaVersion ≤ schemaVersion)
    (hold : ∀ C₀, s.children.get (childKey C.fleetId C.childId) = some C₀ →
      C₀.currentAttemptId = none ∧ C₀.tokensCommitted = 0)
    (hcur : C.currentAttemptId = none) (htok : C.tokensCommitted = 0)
    (hpend : C.pendingEscalation = none) (hst : C.status = .planned ∨ C.status = .ready) :
    KernelInv { s with children := s.children.insert (childKey C.fleetId C.childId) C } := by
  refine
    { h with
      childRow := forall_insert (fun k C _ => h.childRow k C) ⟨rfl, hsafe, hver⟩
      childFleet := forall_insert (fun k C _ => h.childFleet k C) ⟨F, hF⟩
      idle := forall_insert (fun k C _ => h.idle k C) fun _ => ?_
      current := forall_insert (fun k C _ => h.current k C) fun a ha => ?_
      live := fun k A hA hl => ?_
      escalation := forall_insert (fun k C _ => h.escalation k C) ?_
      committed := fun f F₀ hF₀ => ?_ }
  · rcases hst with hst | hst <;> rw [hst] <;> rfl
  · rw [hcur] at ha
    cases ha
  · obtain ⟨hF₀, C₀, hC₀, hcur₀⟩ := h.live k A hA hl
    refine ⟨hF₀, C₀, ?_, hcur₀⟩
    -- A live attempt belongs to another child, as the old row of this one is idle.
    have hne : childKey A.fleetId A.childId ≠ childKey C.fleetId C.childId := by
      intro he
      rw [he] at hC₀
      rw [(hold C₀ hC₀).1] at hcur₀
      cases hcur₀
    rw [get_insert_of_ne _ _ hne, hC₀]
  · rcases hst with hst | hst <;> simp [hst, hpend]
  · have hsum := s.children.sum_insert (committedBy f) (childKey C.fleetId C.childId) C
    have hnew : committedBy f C = 0 := by simp [committedBy, htok]
    have hrow : (s.children.get (childKey C.fleetId C.childId)).elim 0 (committedBy f) = 0 := by
      cases hC₀ : s.children.get (childKey C.fleetId C.childId) with
      | none => rfl
      | some C₀ => simp [committedBy, (hold C₀ hC₀).2]
    rw [h.committed f F₀ hF₀]
    dsimp only
    omega

end

/-! ## Moves of a cell -/

section

variable {F F' : FleetRecord} {C C' : FleetChildRecord} {A A' : Option Attempt}

/-- What holds of every attempt but the written one, and of the written one, holds after the
cell was written. -/
theorem forall_attempts_setCell {P : String → Attempt → Prop}
    (hold : ∀ k a, (∀ a', A' = some a' → k ≠ attemptKey C'.childId a'.attemptId) →
      s.attempts.get k = some a → P k a)
    (hnew : ∀ a', A' = some a' → P (attemptKey C'.childId a'.attemptId) a') (k : String)
    (a : Attempt) (h : (s.setCell F' C' A').attempts.get k = some a) : P k a := by
  cases A' with
  | none => exact hold k a nofun h
  | some a' =>
    refine forall_insert (fun k v hk hv => hold k v ?_ hv) (hnew a' rfl) k a h
    rintro _ ⟨rfl⟩
    exact hk

theorem attempts_get_setCell {k : String}
    (hk : ∀ a', A' = some a' → k ≠ attemptKey C'.childId a'.attemptId) :
    (s.setCell F' C' A').attempts.get k = s.attempts.get k := by
  cases A' with
  | none => rfl
  | some a' => exact get_insert_of_ne _ _ (hk a' rfl)

variable (h : KernelInv s) (hc : CellAt s F C A A') (hm : CellStep F C A F' C' A')
include h hc hm

theorem written_of_live {a : Attempt}
    (ha : s.attempts.get (attemptKey C.childId a.attemptId) = some a)
    (hl : a.status.isLive = true) (hcur : C.currentAttemptId = some a.attemptId) :
    ∃ a', A' = some a' ∧ a'.attemptId = a.attemptId := by
  have hC := hc.child
  rcases hm.pointer with hidle | ⟨a', ha', hp⟩
  · obtain ⟨a₀, ha₀, -, hag⟩ := h.current _ C hC _ hcur
    rw [ha] at ha₀
    cases ha₀
    rw [agrees_inFlight hag hl] at hidle
    cases hidle
  · rw [hcur] at hp
    exact ⟨a', ha', (Option.some.inj hp).symm⟩

theorem committed_setCell : ∀ f F₀, (s.setCell F' C' A').fleets.get f = some F₀ →
    F₀.budget.tokensCommitted.toNat = (s.setCell F' C' A').children.sum (committedBy f) := by
  obtain ⟨hF, hC, hA⟩ := hc
  obtain ⟨hcf, hcc, -⟩ := hm.child
  have hsum : ∀ f, (s.setCell F' C' A').children.sum (committedBy f) + committedBy f C =
      s.children.sum (committedBy f) + committedBy f C' :=
    fun f => sum_insert_old _ _ (by rw [hcf, hcc, hC])
  have hcom := hm.committed
  refine forall_insert (fun g F₀ hg hF₀ => ?_) ?_
  · have hne : C.fleetId ≠ g := fun he => hg (by rw [hcf, he])
    have := hsum g
    rw [committedBy, committedBy, hcf, if_neg hne, if_neg hne] at this
    rw [h.committed g F₀ hF₀]
    exact this.symm
  · have := hsum C'.fleetId
    rw [committedBy, committedBy, if_pos rfl, if_pos hcf.symm] at this
    have hold := h.committed _ F hF
    rw [← hcf] at hold
    omega

theorem live_setCell : ∀ k a, (s.setCell F' C' A').attempts.get k = some a →
    a.status.isLive = true →
    (∃ F₀, (s.setCell F' C' A').fleets.get a.fleetId = some F₀ ∧ a.generation = F₀.generation) ∧
    ∃ C₀, (s.setCell F' C' A').children.get (childKey a.fleetId a.childId) = some C₀ ∧
      C₀.currentAttemptId = some a.attemptId := by
  obtain ⟨hF, hC, hA⟩ := id hc
  obtain ⟨hcf, hcc, -⟩ := hm.child
  refine forall_attempts_setCell (fun k a hk ha hl => ?_) fun a' ha' hl => ?_
  · -- an attempt that was there: the cell's live attempt is the written one, so its child is
    -- another one
    obtain ⟨⟨F₀, hF₀, hg₀⟩, C₀, hC₀, hcur₀⟩ := h.live k a ha hl
    have hka := (h.attemptRow k a ha).1
    constructor
    · by_cases hf : a.fleetId = C.fleetId
      · rw [hf, hF] at hF₀
        cases hF₀
        exact ⟨F', by simp [setCell, hcf, hf], by rw [hg₀, hm.fleet.2.2.2.1]⟩
      · exact ⟨F₀, by simp [setCell, hcf, hf, hF₀], hg₀⟩
    · by_cases hk' : childKey a.fleetId a.childId = childKey C.fleetId C.childId
      · exfalso
        rw [hk', hC] at hC₀
        cases hC₀
        obtain ⟨-, hid⟩ := (childKey_inj (h.fleetRow _ _ hF₀).2.1 (h.safe_fleetId hC)).mp hk'
        rw [hka, hid] at ha
        obtain ⟨a', ha', hid'⟩ := h.written_of_live hc hm ha hl hcur₀
        exact hk a' ha' (by rw [hka, hid, hcc, hid'])
      · exact ⟨C₀, by simp [setCell, hcf, hcc, hk', hC₀], hcur₀⟩
  · obtain ⟨-, hfid, hcid⟩ := hA a' ha'
    obtain ⟨hcur, hgen⟩ := hm.live a' ha' hl
    refine ⟨⟨F', by simp [setCell, hcf, hfid], ?_⟩, C', ?_, hcur⟩
    · rw [hgen, hm.fleet.2.2.2.1]
    · simp [setCell, hcf, hcc, hfid, hcid]

theorem current_setCell : ∀ k C₀, (s.setCell F' C' A').children.get k = some C₀ →
    ∀ a, C₀.currentAttemptId = some a →
    ∃ a₀, (s.setCell F' C' A').attempts.get (attemptKey C₀.childId a) = some a₀ ∧
      a₀.fleetId = C₀.fleetId ∧ agrees C₀.status a₀.status = true := by
  obtain ⟨hF, hC, hA⟩ := hc
  obtain ⟨hcf, hcc, -⟩ := hm.child
  have hsafe := (h.childRow _ C hC).2.1
  refine forall_insert (fun k C₀ hk hC₀ a ha => ?_) fun a ha => ?_
  · -- another child: the written attempt is not its current one, which belongs to its fleet
    obtain ⟨a₀, ha₀, hfid, hag⟩ := h.current k C₀ hC₀ a ha
    refine ⟨a₀, ?_, hfid, hag⟩
    rw [attempts_get_setCell, ha₀]
    intro a' ha' he
    obtain ⟨hrow, hfa, hca⟩ := hA a' ha'
    rw [hcc] at he
    rw [← he, ha₀] at hrow
    have hcid := ((attemptKey_inj (h.childRow k C₀ hC₀).2.1 hsafe).mp he).1
    have hfid' : a₀.fleetId = C.fleetId := by
      rcases hm.attempt with ⟨hn, -⟩ | ⟨hn, -⟩ | ⟨b, b', hb, hb', -, hfb, -⟩
      · rw [hn] at hrow
        cases hrow
      · rw [hn] at hrow
        cases hrow
      · rw [hb] at hrow
        rw [hb'] at ha'
        cases hrow
        cases ha'
        rw [← hfb, hfa]
    apply hk
    rw [(h.childRow k C₀ hC₀).1, hcid, ← hfid, hfid', hcf, hcc]
  · -- The child itself: it has no attempt, a new one, or the one it had.
    rcases hm.link with ⟨hn, -⟩ | ⟨a', ha', hcur, hag⟩ | ⟨hn, hcur, hst⟩
    · rw [hn] at ha
      cases ha
    · rw [ha] at hcur
      cases hcur
      refine ⟨a', ?_, by rw [hcf, (hA a' ha').2.1], hag⟩
      subst ha'
      exact get_insert_self ..
    · rw [hcur] at ha
      subst hn
      rw [hcf, hcc, hst]
      exact h.current _ C hC a ha

theorem reserved_setCell : ∀ f F₀, (s.setCell F' C' A').fleets.get f = some F₀ →
    F₀.budget.tokensReserved.toNat = (s.setCell F' C' A').attempts.sum (heldBy f) := by
  obtain ⟨hF, hC, hA⟩ := hc
  obtain ⟨hcf, hcc, -⟩ := hm.child
  -- the written attempt and the one it continues belong to the cell's fleet
  have hA₁ : ∀ a, A = some a → a.fleetId = C.fleetId := by
    rintro a rfl
    rcases hm.attempt with ⟨hn, -⟩ | ⟨hn, -⟩ | ⟨b, b', hb, hb', -, hfb, -⟩
    · cases hn
    · cases hn
    · cases hb
      rw [← hfb, (hA b' hb').2.1]
  have hmine : ∀ f (o : Option Attempt), (∀ a, o = some a → a.fleetId = C.fleetId) →
      o.elim 0 (heldBy f) = if C.fleetId = f then o.elim 0 Attempt.held else 0 := by
    intro f o ho
    cases o with
    | none => simp
    | some a => simp [heldBy, ho a rfl]
  have hsum : ∀ f, (s.setCell F' C' A').attempts.sum (heldBy f) + A.elim 0 (heldBy f) =
      s.attempts.sum (heldBy f) + A'.elim 0 (heldBy f) := by
    intro f
    cases A' with
    | none =>
      rcases hm.attempt with ⟨hn, -⟩ | ⟨-, a', ha', -⟩ | ⟨a, a', -, ha', -⟩
      · rw [hn]
        rfl
      · cases ha'
      · cases ha'
    | some a' =>
      rw [← (hA a' rfl).1, ← hcc]
      exact s.attempts.sum_insert ..
  have hres := hm.reserved
  refine forall_insert (fun g F₀ hg hF₀ => ?_) ?_
  · have hne : C.fleetId ≠ g := fun he => hg (by rw [hcf, he])
    have := hsum g
    rw [hmine g A hA₁, hmine g A' fun a' ha' => (hA a' ha').2.1, if_neg hne, if_neg hne] at this
    rw [h.reserved g F₀ hF₀]
    exact this.symm
  · have := hsum C'.fleetId
    rw [hmine _ A hA₁, hmine _ A' fun a' ha' => (hA a' ha').2.1, if_pos hcf.symm,
      if_pos hcf.symm] at this
    have hold := h.reserved _ F hF
    rw [← hcf] at hold
    omega

/-- **A cell step keeps the invariant.** -/
theorem setCell : KernelInv (s.setCell F' C' A') := by
  obtain ⟨hF, hC, hA⟩ := id hc
  obtain ⟨hcf, hcc, hver⟩ := hm.child
  obtain ⟨hk, hsafe, hverC⟩ := h.childRow _ C hC
  obtain ⟨hid, hsafeF, hverF⟩ := h.fleetRow _ F hF
  -- What is left are the rows of the cell itself.
  refine
    { fleetRow := forall_insert (fun f F _ => h.fleetRow f F) ?_
      childRow := forall_insert (fun k C _ => h.childRow k C) ?_
      attemptRow := forall_attempts_setCell (fun k a _ => h.attemptRow k a) ?_
      planRow := h.planRow
      childFleet := forall_insert
        (fun k C₀ _ hC₀ => exists_get_insert F' (h.childFleet k C₀ hC₀)) ?_
      planFleet := fun f P hP => exists_get_insert F' (h.planFleet f P hP)
      idle := forall_insert (fun k C _ => h.idle k C) ?_
      current := h.current_setCell hc hm
      live := h.live_setCell hc hm
      escalation := forall_insert (fun k C _ => h.escalation k C)
        (hm.escalation (h.escalation _ C hC))
      reserved := h.reserved_setCell hc hm
      committed := h.committed_setCell hc hm}
  · rw [hm.fleet.1, hm.fleet.2.1, hcf]
    exact ⟨hid, hsafeF, hverF⟩
  · rw [hcc]
    exact ⟨rfl, hsafe, hver hverC⟩
  · intro a' ha'
    rw [hcc]
    obtain ⟨hrow, -, hca⟩ := hA a' ha'
    refine ⟨by rw [hca], by rw [hca]; exact hsafe, ?_⟩
    rcases hm.attempt with ⟨-, hn⟩ | ⟨-, b', hb', hv⟩ | ⟨b, b', hb, hb', -, -, -, -, -, hv, -⟩
    · rw [hn] at ha'
      cases ha'
    · rw [hb'] at ha'
      cases ha'
      exact hv
    · rw [hb'] at ha'
      cases ha'
      rw [hv]
      rw [hb] at hrow
      exact (h.attemptRow _ b hrow).2.2
  · exact ⟨F', get_insert_self ..⟩
  · intro hn
    rcases hm.link with ⟨-, hi⟩ | ⟨a', -, hcur, -⟩ | ⟨-, hcur, hst⟩
    · exact hi
    · rw [hn] at hcur
      cases hcur
    · rw [hst]
      exact h.idle _ C hC (hcur ▸ hn)

end

variable {s' : FleetKernelStore}

/-- **Every effect keeps the invariant.** -/
theorem effect {l : Label} (h : KernelInv s) (he : Effect l s s') : KernelInv s' := by
  cases he with
  | events => exact h.events ..
  | newFleet hF hsafe hver hr hc => exact h.newFleet hF hsafe hver hr hc
  | newChild hF hl hsafe hver hold hcur htok hpend hst =>
    exact h.newChild hF hsafe hver hold hcur htok hpend hst
  | newPlan hF hl hver hrev | editPlan hF hl hP hver hrev hshape => exact h.setPlan hF hver
  | cancel now hF hl =>
    rename_i F
    exact h.setFleet (G := { F with status := .cancelled, updatedAtMs := now }) hF rfl rfl
      (.inl rfl)
  | bump generation now hF hl hn =>
    rename_i F
    exact h.setFleet (G := { F with generation, updatedAtMs := now }) hF rfl rfl (.inr hn)
  | cell hc hdeps hm => exact h.setCell hc hm.cellStep

theorem steps {L : Label → Prop} (h : KernelInv s) (hs : StepsIn Effect L s s') : KernelInv s' :=
  hs.invariant (fun _ _ _ _ he h => h.effect he) h

end KernelInv

end Octos.Fleet
