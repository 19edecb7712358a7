import Octos.Fleet.Invariant

/-!
# Boot recovery as moves

The walk of `reconcile` meets every child once. A child in flight has a live attempt, whose
reservation the fleet's budget counts, so the release cannot fail: under the invariant the walk
always succeeds. What a part of the walk did is a function of its report, and the parts compose.
-/

namespace Octos.Fleet.FleetKernelStore

open List Option

def reconcileLabel (l : Label) : Prop := ∃ f, l = .move f .reclaim ∨ l = .move f .retire

/-- The two stores have the same fleets, with the same statuses. -/
def SameFleetStatus (s s' : FleetKernelStore) : Prop :=
  ∀ f, (s'.fleets.get f).map (·.status) = (s.fleets.get f).map (·.status)

/-- The store after the live attempt `A` of the child `C` was taken back. -/
def reclaimed (s : FleetKernelStore) (F : FleetRecord) (C : FleetChildRecord) (A : Attempt)
    (reserved nowMs : UInt64) : FleetKernelStore :=
  s.setCell
    { F with budget := { F.budget with tokensReserved := reserved }, updatedAtMs := nowMs }
    { C with
      status := if fleetIsLive F then .ready else .cancelled, currentAttemptId := none,
      updatedAtMs := nowMs }
    (some { A with status := .interrupted, endedAtMs := some nowMs })

section

variable (nowMs ownerEpoch : UInt64)

/-- The live attempts that recovery takes back: the fleet is terminal, or the lease is stale. -/
def Stranded (s : FleetKernelStore) (A : Attempt) : Prop :=
  A.status.isLive = true ∧
    ((s.fleets.get A.fleetId).any fleetIsLive = true → leaseStale A nowMs ownerEpoch = true)

def interrupted (A : Attempt) : InterruptedAttempt := ⟨A.fleetId, A.childId, A.attemptId⟩

def attemptAfter (out : List InterruptedAttempt) (A : Attempt) : Attempt :=
  if interrupted A ∈ out then { A with status := .interrupted, endedAtMs := some nowMs } else A

def childAfter (s : FleetKernelStore) (out : List InterruptedAttempt) (C : FleetChildRecord) :
    FleetChildRecord :=
  if (C.fleetId, C.childId) ∈ out.map fun r => (r.fleetId, r.childId) then
    { C with
      status := if (s.fleets.get C.fleetId).any fleetIsLive then .ready else .cancelled,
      currentAttemptId := none, updatedAtMs := nowMs }
  else C

/-- What the walk did, by its report, which names stranded attempts. -/
structure Recovered (s s' : FleetKernelStore) (out : List InterruptedAttempt) : Prop where
  steps : StepsIn Effect reconcileLabel s s'
  fleets : SameFleetStatus s s'
  attempts : ∀ k, s'.attempts.get k = (s.attempts.get k).map (attemptAfter nowMs out)
  children : ∀ k, s'.children.get k = (s.children.get k).map (childAfter nowMs s out)
  report : ∀ r ∈ out, ∃ k A, s.attempts.get k = some A ∧ interrupted A = r ∧
    Stranded nowMs ownerEpoch s A
  nodup : out.Nodup

/-- The step of the walk at the child `C` takes back its attempt `A`. -/
structure Reclaims (s : FleetKernelStore) (F : FleetRecord) (C : FleetChildRecord) (A : Attempt)
    (reserved : UInt64) : Prop extends KernelInv.LiveAttempt s F C A reserved where
  fleet : s.fleets.get C.fleetId = some F
  child : s.children.get (childKey C.fleetId C.childId) = some C
  inFlight : C.status.inFlight = true
  stranded : Stranded nowMs ownerEpoch s A

variable {nowMs ownerEpoch} {s t u : FleetKernelStore} {out out' : List InterruptedAttempt}
  {F F' : FleetRecord} {C : FleetChildRecord} {A A' : Attempt} {reserved reserved' : UInt64}
    {k : String}

theorem SameFleetStatus.live_eq (h : SameFleetStatus s t) (f : String) :
    (t.fleets.get f).any fleetIsLive = (s.fleets.get f).any fleetIsLive := by
  have hst := h f
  cases hs : s.fleets.get f <;> cases ht : t.fleets.get f <;> simp_all [fleetIsLive]

theorem inFlight_iff {c : ChildStatus} : c.inFlight = true ↔ c = .launching ∨ c = .running := by
  cases c <;> simp [ChildStatus.inFlight]

theorem Reclaims.attempt_eq (hr : Reclaims nowMs ownerEpoch s F C A reserved)
    (hl : KernelInv.LiveAttempt s F' C A' reserved') : A = A' := by
  have hA := hr.attempt
  rw [some.inj (hr.current.symm.trans hl.current), hl.attempt] at hA
  exact (some.inj hA).symm

theorem exists_reclaims (h : KernelInv s) (hA : s.attempts.get k = some A)
    (hs : Stranded nowMs ownerEpoch s A)
    (hC : s.children.get (childKey C.fleetId C.childId) = some C) (hf : A.fleetId = C.fleetId)
    (hc : A.childId = C.childId) : ∃ F reserved, Reclaims nowMs ownerEpoch s F C A reserved := by
  obtain ⟨⟨F, hF, -⟩, D, hD, hcur⟩ := h.live k A hA hs.1
  rw [hf] at hF
  rw [hf, hc, hC] at hD
  cases hD
  -- the live attempt is the current one of the child, which is then in flight
  have hrow := (h.attemptRow k A hA).1
  rw [hrow, hc] at hA
  obtain ⟨A', hA', -, hag⟩ := h.current _ C hC _ hcur
  cases hA.symm.trans hA'
  have hfly := agrees_inFlight hag hs.1
  obtain ⟨B, reserved, hl⟩ := h.inFlight_attempt hF hC hfly
  have hB := hl.attempt
  rw [← some.inj (hcur.symm.trans hl.current), hA] at hB
  cases hB
  exact ⟨F, reserved, hl, hF, hC, hfly, hs⟩

theorem reconcileStep_cases (acc : Committed (List InterruptedAttempt)) (h : KernelInv acc.1)
    (hC : acc.1.children.get (childKey C.fleetId C.childId) = some C) :
    (reconcileStep nowMs ownerEpoch acc C = .ok acc ∧
      ∀ F A reserved, ¬ Reclaims nowMs ownerEpoch acc.1 F C A reserved) ∨
    ∃ F A reserved, Reclaims nowMs ownerEpoch acc.1 F C A reserved ∧
      reconcileStep nowMs ownerEpoch acc C =
        .ok (acc.1.reclaimed F C A reserved nowMs, acc.2 ++ [interrupted A]) := by
  -- Under the invariant every read of the step succeeds, so that only its guards decide.
  by_cases hfly : C.status.inFlight = true
  · obtain ⟨F, hF⟩ := h.childFleet _ C hC
    obtain ⟨A, reserved, hl⟩ := h.inFlight_attempt hF hC hfly
    have hread : acc.1.attempt C.childId A.attemptId = some A := by
      rw [h.attempt_eq (h.childRow _ C hC).2.1, hl.attempt]
    have hnot : ¬ (C.status ≠ .launching ∧ C.status ≠ .running) := by
      have hst := inFlight_iff.mp hfly
      tauto
    have hany : (acc.1.fleets.get A.fleetId).any fleetIsLive = fleetIsLive F := by
      rw [hl.fleetId_eq, hF, any_some]
    by_cases hkeep : fleetIsLive F = true ∧ (!leaseStale A nowMs ownerEpoch) = true
    · -- a live fleet's attempt with a good lease is left alone
      refine .inl ⟨?_, fun F' B reserved' hr => ?_⟩
      · unfold reconcileStep
        simp only [if_neg hnot, hl.current, h.fleet_eq, hF, hread, hl.live,
          if_neg (not_not.mpr hl.fleetId_eq), Bool.not_true, Bool.false_eq_true, if_false,
          if_pos hkeep]
        rfl
      · obtain rfl := hr.attempt_eq hl
        have hstale := hr.stranded.2 (hany.trans hkeep.1)
        simp [hstale] at hkeep
    · refine .inr ⟨F, A, reserved, ⟨hl, hF, hC, hfly, hl.live, fun hlive => ?_⟩, ?_⟩
      · rw [hany] at hlive
        simpa [hlive] using hkeep
      · rw [interrupted, hl.fleetId_eq, hl.childId_eq]
        unfold reconcileStep
        simp only [if_neg hnot, hl.current, h.fleet_eq, hF, hread, hl.live,
          if_neg (not_not.mpr hl.fleetId_eq), Bool.not_true, Bool.false_eq_true, if_false,
          if_neg hkeep, hl.reserved, orError]
        rfl
  · refine .inl ⟨?_, fun F A reserved hr => hfly hr.inFlight⟩
    unfold reconcileStep
    rw [inFlight_iff] at hfly
    rw [if_pos (by tauto)]
    rfl

theorem reclaim_effect (hr : Reclaims nowMs ownerEpoch s F C A reserved) :
    Effect (.move C.fleetId (if fleetIsLive F then .reclaim else .retire)) s
      (s.reclaimed F C A reserved nowMs) := by
  refine .cell ⟨hr.fleet, hr.child, ?_⟩ ?_
    (.reclaim reserved nowMs rfl (inFlight_iff.mp hr.inFlight)
    hr.current hr.live (checkedSub_eq_some.mp hr.reserved))
  · rintro _ ⟨rfl⟩
    exact ⟨hr.attempt, hr.fleetId_eq, hr.childId_eq⟩
  · intro hk
    split_ifs at hk

theorem Recovered.refl (s : FleetKernelStore) : Recovered nowMs ownerEpoch s s [] := by
  refine ⟨.refl _, fun _ => rfl, fun k => ?_, fun k => ?_, nofun, nodup_nil⟩
  · cases s.attempts.get k <;> rfl
  · cases s.children.get k <;> simp [childAfter]

theorem Reclaims.recovered (h : KernelInv s) (hr : Reclaims nowMs ownerEpoch s F C A reserved) :
    Recovered nowMs ownerEpoch s (s.reclaimed F C A reserved nowMs) [interrupted A] := by
  refine ⟨.single ⟨C.fleetId, ?_⟩ (reclaim_effect hr), fun f => ?_, fun k => ?_, fun k => ?_,
    fun r hmem => ⟨_, A, hr.attempt, (mem_singleton.mp hmem).symm, hr.stranded⟩,
    nodup_singleton _⟩
  · split_ifs
    · exact .inl rfl
    · exact .inr rfl
  · -- In each table: the row that was written, and the others.
    show ((s.fleets.insert C.fleetId _).get f).map _ = _
    rw [Table.get_insert]
    by_cases hf : f = C.fleetId
    · rw [if_pos hf, hf, hr.fleet]
      rfl
    · rw [if_neg hf]
  · show (s.attempts.insert (attemptKey C.childId A.attemptId) _).get k = _
    rw [Table.get_insert]
    by_cases hk : k = attemptKey C.childId A.attemptId
    · rw [if_pos hk, hk, hr.attempt, map_some, attemptAfter,
        if_pos (mem_singleton.mpr rfl)]
    · rw [if_neg hk]
      cases hB : s.attempts.get k with
      | none => rfl
      | some B =>
        rw [map_some, attemptAfter, if_neg]
        intro hmem
        obtain ⟨-, hc, ha⟩ := InterruptedAttempt.mk.inj (mem_singleton.mp hmem)
        exact hk (by rw [(h.attemptRow k B hB).1, hc, ha, hr.childId_eq])
  · show (s.children.insert (childKey C.fleetId C.childId) _).get k = _
    rw [Table.get_insert]
    by_cases hk : k = childKey C.fleetId C.childId
    · rw [if_pos hk, hk, hr.child, map_some]
      simp [childAfter, interrupted, hr.fleet, hr.fleetId_eq, hr.childId_eq]
    · rw [if_neg hk]
      cases hD : s.children.get k with
      | none => rfl
      | some D =>
        rw [map_some, childAfter, if_neg]
        intro hmem
        obtain ⟨hf, hc⟩ := Prod.mk.inj (mem_singleton.mp hmem)
        exact hk (by rw [(h.childRow k D hD).1, hf, hc, interrupted, hr.fleetId_eq, hr.childId_eq])

theorem Recovered.of_live (hr : Recovered nowMs ownerEpoch s t out)
    (hA : t.attempts.get k = some A) (hlive : A.status.isLive = true) :
    s.attempts.get k = some A ∧ interrupted A ∉ out := by
  rw [hr.attempts] at hA
  obtain ⟨A₀, hA₀, rfl⟩ := map_eq_some_iff.mp hA
  unfold attemptAfter at hlive ⊢
  split_ifs at hlive ⊢ with hmem
  · cases hlive
  · exact ⟨hA₀, hmem⟩

theorem Recovered.stranded_iff (hr : Recovered nowMs ownerEpoch s t out) :
    Stranded nowMs ownerEpoch t A ↔ Stranded nowMs ownerEpoch s A := by
  rw [Stranded, Stranded, hr.fleets.live_eq]

/-- **Two parts of the walk compose.** -/
theorem Recovered.trans (hst : Recovered nowMs ownerEpoch s t out)
    (htu : Recovered nowMs ownerEpoch t u out') : Recovered nowMs ownerEpoch s u (out ++ out') := by
  -- the second part reports attempts that were live after the first one
  have hnew : ∀ r ∈ out', r ∉ out ∧ ∃ k A, s.attempts.get k = some A ∧ interrupted A = r ∧
      Stranded nowMs ownerEpoch s A := by
    intro r hr
    obtain ⟨k, A, hA, rfl, hstranded⟩ := htu.report r hr
    obtain ⟨hA₀, hmem⟩ := hst.of_live hA hstranded.1
    exact ⟨hmem, k, A, hA₀, rfl, hst.stranded_iff.mp hstranded⟩
  refine ⟨hst.steps.trans htu.steps, fun f => (htu.fleets f).trans (hst.fleets f), fun k => ?_,
    fun k => ?_, fun r hr => ?_, ?_⟩
  · rw [htu.attempts, hst.attempts, Option.map_map]
    congr 1
    funext A
    by_cases h₁ : interrupted A ∈ out
    · simp [attemptAfter, interrupted] at h₁ ⊢
      simp [h₁]
    · simp [attemptAfter, h₁]
  · rw [htu.children, hst.children, Option.map_map]
    congr 1
    funext C
    rw [Function.comp_apply, childAfter, childAfter, childAfter, map_append]
    by_cases h₁ : (C.fleetId, C.childId) ∈ out.map fun r => (r.fleetId, r.childId)
    · simp [h₁, hst.fleets.live_eq]
    · simp [h₁, hst.fleets.live_eq]
  · rcases mem_append.mp hr with hr | hr
    · exact hst.report r hr
    · exact (hnew r hr).2
  · refine nodup_append'.mpr ⟨hst.nodup, htu.nodup, fun r hr hr' => ?_⟩
    exact (hnew r hr').1 hr

theorem foldlM_reconcileStep {l : List FleetChildRecord}
    (hl : l.Pairwise fun C D => childKey C.fleetId C.childId ≠ childKey D.fleetId D.childId)
    (acc : Committed (List InterruptedAttempt)) (h : KernelInv acc.1)
    (hrows : ∀ C ∈ l, acc.1.children.get (childKey C.fleetId C.childId) = some C) :
    ∃ s' out, l.foldlM (reconcileStep nowMs ownerEpoch) acc = .ok (s', acc.2 ++ out) ∧
      Recovered nowMs ownerEpoch acc.1 s' out ∧ ∀ C ∈ l, ∀ k A, acc.1.attempts.get k = some A →
        A.fleetId = C.fleetId → A.childId = C.childId → Stranded nowMs ownerEpoch acc.1 A →
        interrupted A ∈ out := by
  -- The rows of the children to come are untouched, since keys are distinct.
  induction l generalizing acc with
  | nil =>
    refine ⟨acc.1, [], ?_, .refl _, fun C hC => absurd hC not_mem_nil⟩
    rw [foldlM_nil, append_nil]
    rfl
  | cons C l ih =>
    obtain ⟨hC, hl⟩ := pairwise_cons.mp hl
    have hrow := hrows C mem_cons_self
    have hrest : ∀ D ∈ l, acc.1.children.get (childKey D.fleetId D.childId) = some D :=
      fun D hD => hrows D (mem_cons_of_mem _ hD)
    rw [foldlM_cons]
    rcases reconcileStep_cases _ h hrow with ⟨hok, hno⟩ | ⟨F, A, reserved, hr, hok⟩
    · obtain ⟨s', out, hfold, hrec, hall⟩ := ih hl acc h hrest
      refine ⟨s', out, by rw [hok]; exact hfold, hrec, forall_mem_cons.mpr ⟨?_, hall⟩⟩
      intro k B hB hf hc hs
      obtain ⟨F, reserved, hr⟩ := exists_reclaims h hB hs hrow hf hc
      exact absurd hr (hno F B reserved)
    · have hrec := hr.recovered h
      obtain ⟨s', out, hfold, hrec', hall⟩ := ih hl
        (acc.1.reclaimed F C A reserved nowMs, acc.2 ++ [interrupted A]) (h.steps hrec.steps)
        fun D hD => (Table.get_insert_of_ne _ _ (hC D hD).symm).trans (hrest D hD)
      refine ⟨s', [interrupted A] ++ out, ?_, hrec.trans hrec',
        forall_mem_cons.mpr ⟨?_, fun D hD k B hB hf hc hs => ?_⟩⟩
      · rw [hok, ← append_assoc]
        exact hfold
      · intro k B hB hf hc hs
        obtain ⟨F', reserved', hr'⟩ := exists_reclaims h hB hs hrow hf hc
        rw [hr'.attempt_eq hr.toLiveAttempt]
        exact mem_cons_self
      · by_cases hmem : interrupted B ∈ [interrupted A]
        · exact mem_append_left _ hmem
        · refine mem_append_right _ (hall D hD k B ?_ hf hc (hrec.stranded_iff.mpr hs))
          rw [hrec.attempts, hB, map_some, attemptAfter, if_neg hmem]

/-- **Recovery always succeeds**, and takes back exactly the stranded attempts. -/
theorem reconcile_spec (h : KernelInv s) (nowMs ownerEpoch : UInt64) :
    ∃ s' out, s.reconcile nowMs ownerEpoch = .ok (s', out) ∧
      Recovered nowMs ownerEpoch s s' out ∧ ∀ k A, s.attempts.get k = some A →
        Stranded nowMs ownerEpoch s A → interrupted A ∈ out := by
  obtain ⟨s', out, hfold, hrec, hall⟩ := foldlM_reconcileStep h.children_pairwise (s, []) h
    fun C hC => h.mem_children.mp hC
  refine ⟨s', out, ?_, hrec, fun k A hA hs => ?_⟩
  · rw [reconcile, h.ownedChildren_eq]
    exact hfold
  · obtain ⟨⟨F, hF, -⟩, C, hC, -⟩ := h.live k A hA hs.1
    obtain ⟨hf, hc⟩ := h.child_ids (h.fleetRow _ F hF).2.1 hC
    exact hall C (Table.mem_values.mpr ⟨_, hC⟩) k A hA hf.symm hc.symm hs

theorem not_stranded_after (hrec : Recovered nowMs ownerEpoch s t out)
    (hall : ∀ k A, s.attempts.get k = some A → Stranded nowMs ownerEpoch s A →
      interrupted A ∈ out) (hA : t.attempts.get k = some A) :
    ¬ Stranded nowMs ownerEpoch t A := by
  intro hs
  obtain ⟨hA₀, hmem⟩ := hrec.of_live hA hs.1
  exact hmem (hall k A hA₀ (hrec.stranded_iff.mp hs))

/-- **A walk over a store without stranded attempts does nothing.** -/
theorem reconcile_of_not_stranded (h : KernelInv s)
    (hno : ∀ k A, s.attempts.get k = some A → ¬ Stranded nowMs ownerEpoch s A) :
    s.reconcile nowMs ownerEpoch = .ok (s, []) := by
  have hskip : ∀ C ∈ s.children.values, reconcileStep nowMs ownerEpoch (s, []) C = .ok (s, []) := by
    intro C hC
    rcases reconcileStep_cases (s, []) h (h.mem_children.mp hC) with
      ⟨hok, -⟩ | ⟨F, A, reserved, hr, -⟩
    · exact hok
    · exact absurd hr.stranded (hno _ A hr.attempt)
  rw [reconcile, h.ownedChildren_eq]
  generalize s.children.values = l at hskip
  induction l with
  | nil => rfl
  | cons C l ih =>
    rw [foldlM_cons, hskip C mem_cons_self]
    exact ih fun D hD => hskip D (mem_cons_of_mem _ hD)

end

end Octos.Fleet.FleetKernelStore
