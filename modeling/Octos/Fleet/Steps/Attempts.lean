import Octos.Fleet.Invariant

/-!
# Attempt operations as moves

A launch, a start, a completion or an escalation that takes effect is one move of the cell of its
child, followed by the event it appends. A call that does not take effect leaves the store as it
was.
-/

namespace Octos.Fleet

variable {e : StoreError}

theorem ensureKeySafe_error {cs : List String} (h : ensureKeySafe cs = .error e) :
    e.isTokenArithmetic = false := by
  induction cs with
  | nil => cases h
  | cons c cs ih =>
    rw [ensureKeySafe] at h
    split_ifs at h
    · exact ih h
    · cases h
      rfl

theorem appendOutbox_error {outbox : Table String OutboxEvent} {ev : OutboxEvent}
    (h : appendOutbox outbox ev = .error e) : e.isTokenArithmetic = false := by
  rcases bind_eq_error.mp h with h | ⟨_, -, h⟩
  · unfold nextSequence at h
    split at h
    · rcases bind_eq_error.mp h with h | ⟨_, -, h⟩
      · rw [← (orError_eq_error.mp h).2]
        rfl
      · rw [← (orError_eq_error.mp h).2]
        rfl
    · cases h
  · cases h

namespace FleetKernelStore

variable {s s' : FleetKernelStore}

section

variable {fleetId childId attemptId eventId : String}
  {projectedTokens nowMs ownerEpoch leaseTtlMs : UInt64} {out : LaunchOutcome}

/-- **A launch that takes effect is a launch move, and reports itself by one event.** -/
theorem launchChild_spec (h : KernelInv s)
    (hfresh : s.attempts.get (attemptKey childId attemptId) = none)
    (hok : s.launchChild fleetId childId projectedTokens nowMs ownerEpoch leaseTtlMs attemptId
      eventId = .ok (s', out)) :
    (s' = s ∧ ∀ a, out ≠ .launched a) ∨
    (out = .launched attemptId ∧ ∃ F C F' C' A' outbox seq,
      C.fleetId = fleetId ∧ C.childId = childId ∧ A'.attemptId = attemptId ∧
      CellAt s F C none (some A') ∧ Move .launch F C none F' C' (some A') ∧
      appendOutbox s.outbox
        (outboxEvent .childLaunching eventId fleetId (some childId) (some attemptId)) =
          .ok (outbox, seq) ∧
      s' = { s.setCell F' C' (some A') with outbox }) := by
  obtain ⟨⟨⟩, hsafe, hok⟩ := bind_eq_ok.mp hok
  have hsafe := ensureKeySafe_eq_ok.mp hsafe
  -- Each refusal leaves the store as it was.
  split at hok
  case h_2 =>
    cases hok
    exact .inl ⟨rfl, nofun⟩
  rename_i C hC
  split_ifs at hok with hst hdouble hcur
  · cases hok
    exact .inl ⟨rfl, nofun⟩
  · cases hok
    exact .inl ⟨rfl, nofun⟩
  · cases hok
    exact .inl ⟨rfl, nofun⟩
  split at hok
  case h_2 =>
    cases hok
    exact .inl ⟨rfl, nofun⟩
  rename_i F hF
  split_ifs at hok with hlive hadm
  · cases hok
    exact .inl ⟨rfl, nofun⟩
  · cases hok
    exact .inl ⟨rfl, nofun⟩
  obtain ⟨reserved, hr, hok⟩ := bind_eq_ok.mp hok
  obtain ⟨expires, he, hok⟩ := bind_eq_ok.mp hok
  obtain ⟨used, hu, hok⟩ := bind_eq_ok.mp hok
  obtain ⟨⟨outbox, seq⟩, ho, hok⟩ := bind_eq_ok.mp hok
  cases hok
  -- Under the invariant the rows that were read are those of the cell.
  rw [h.child_eq (hsafe _ (by simp))] at hC
  rw [h.fleet_eq] at hF
  obtain ⟨rfl, rfl⟩ := h.child_ids (hsafe _ (by simp)) hC
  refine .inr ⟨rfl, F, C, _, _,
    { schemaVersion := schemaVersion, fleetId := C.fleetId, childId := C.childId, attemptId,
      generation := F.generation, status := .leased,
      lease := { ownerEpoch, expiresAtMs := expires }, reservedTokens := projectedTokens,
      resultSnapshot := none, startedAtMs := nowMs, endedAtMs := none },
    outbox, seq, rfl, rfl, rfl, ⟨hF, hC, ?_⟩,
      .launch reserved used nowMs ?_ ?_ ?_ ?_ ?_ ?_ ?_ ?_, ho,
    rfl⟩
  · rintro _ ⟨rfl⟩
    exact ⟨hfresh, rfl, rfl⟩
  · simpa using hlive
  · exact not_not.mp hst
  · simpa using hcur
  · simpa using hadm
  · exact checkedAdd_eq_some.mp (orError_eq_ok.mp hr)
  · rfl
  · rfl
  · exact UInt32.le_refl _

end

/-- **A start that takes effect is a start move.** -/
theorem markRunning_spec {childId attemptId : String} {out : MarkRunningOutcome} (h : KernelInv s)
    (hok : s.markRunning childId attemptId = .ok (s', out)) :
    (s' = s ∧ out = .superseded) ∨
    (out = .running ∧ ∃ F C A F' C' A',
      C.childId = childId ∧ A.attemptId = attemptId ∧
      s.attempts.get (attemptKey childId attemptId) = some A ∧ A.generation = F.generation ∧
      CellAt s F C (some A) (some A') ∧ Move .start F C (some A) F' C' (some A') ∧
      s' = s.setCell F' C' (some A')) := by
  obtain ⟨⟨⟩, hsafe, hok⟩ := bind_eq_ok.mp hok
  have hsafe := ensureKeySafe_eq_ok.mp hsafe
  -- Every row that is missing and every part of the guard that fails is a superseded start.
  split at hok
  case h_2 =>
    cases hok
    exact .inl ⟨rfl, rfl⟩
  rename_i A hA
  split at hok
  case h_2 =>
    cases hok
    exact .inl ⟨rfl, rfl⟩
  rename_i C hC
  split at hok
  case h_2 =>
    cases hok
    exact .inl ⟨rfl, rfl⟩
  rename_i F hF
  split_ifs at hok with hlive hguard
  · cases hok
    exact .inl ⟨rfl, rfl⟩
  · cases hok
    exact .inl ⟨rfl, rfl⟩
  cases hok
  simp only [not_or, not_not, ne_eq] at hguard
  obtain ⟨hcur, hst, hAst, hgen⟩ := hguard
  rw [h.fleet_eq] at hF
  rw [h.child_eq (h.fleetRow _ F hF).2.1] at hC
  rw [h.attempt_eq (hsafe _ (by simp))] at hA
  obtain ⟨rfl, rfl⟩ := h.attempt_ids (hsafe _ (by simp)) hA
  obtain ⟨hcf, hcc⟩ := h.child_ids (h.fleetRow _ F hF).2.1 hC
  refine .inr ⟨rfl, F, C, A, F, _, _, hcc, rfl, hA, hgen, ⟨?_, ?_, ?_⟩,
    .start (by simpa using hlive) hst hcur hAst hgen, ?_⟩
  · rw [hcf, hF]
  · rw [hcf, hcc, hC]
  · rintro _ ⟨rfl⟩
    exact ⟨by rw [hcc]; exact hA, hcf.symm, hcc.symm⟩
  · simp only [setCell, hcf, hcc]
    rw [Table.insert_eq_self hF]

section

variable {k : MoveKind} {fleetId childId attemptId eventId : String}
  {actualTokens ownerEpoch nowMs : UInt64} {overflow : StoreError}
  {underflow : UInt64 → UInt64 → StoreError} {child' : FleetChildRecord → FleetChildRecord}
  {attempt' : Attempt → Attempt}

/-- The rows of a settlement that passes its fence. -/
structure Fenced (s : FleetKernelStore) (fleetId childId attemptId : String) (ownerEpoch : UInt64)
    (F : FleetRecord) (C : FleetChildRecord) (A : Attempt) : Prop where
  fleetId_eq : C.fleetId = fleetId
  childId_eq : C.childId = childId
  attemptId_eq : A.attemptId = attemptId
  fleet : s.fleets.get C.fleetId = some F
  child : s.children.get (childKey C.fleetId C.childId) = some C
  attempt : s.attempts.get (attemptKey C.childId A.attemptId) = some A
  owner : A.fleetId = C.fleetId ∧ A.childId = C.childId
  live : fleetIsLive F = true
  pointer : C.currentAttemptId = some A.attemptId
  childRunning : C.status = .running
  running : A.status = .running
  generation : A.generation = F.generation
  epoch : A.lease.ownerEpoch = ownerEpoch

variable (h : KernelInv s)
include h

variable {F : FleetRecord} {C : FleetChildRecord} {A : Attempt}

/-- The fence of a settlement, read off the rows it finds: the child it finds is running. -/
theorem Fenced.of_holdsFence
    (hsafe : ∀ c ∈ [fleetId, childId, attemptId], keyComponentIsSafe c = true)
    (hC : s.child fleetId childId = some C) (hA : s.attempt childId attemptId = some A)
    (hF : s.fleet fleetId = some F) (hfid : A.fleetId = fleetId) (hlive : fleetIsLive F = true)
    (hfence : holdsFence C A F attemptId ownerEpoch = true) :
    Fenced s fleetId childId attemptId ownerEpoch F C A := by
  simp only [holdsFence, Bool.and_eq_true, decide_eq_true_eq] at hfence
  obtain ⟨⟨⟨hcur, hrun⟩, hgen⟩, hepoch⟩ := hfence
  rw [h.fleet_eq] at hF
  rw [h.child_eq (hsafe _ (by simp))] at hC
  rw [h.attempt_eq (hsafe _ (by simp))] at hA
  obtain ⟨hcf, hcc⟩ := h.child_ids (hsafe _ (by simp)) hC
  obtain ⟨hac, haa⟩ := h.attempt_ids (hsafe _ (by simp)) hA
  -- the running attempt is the current one of the child, so the child runs
  have hst : C.status = .running := by
    obtain ⟨A₀, hA₀, -, hag⟩ := h.current _ C hC attemptId hcur
    rw [hcc, hA] at hA₀
    cases hA₀
    rw [hrun] at hag
    revert hag
    cases C.status <;> simp [agrees]
  exact
    { fleetId_eq := hcf, childId_eq := hcc, attemptId_eq := haa
      fleet := by rw [hcf, hF]
      child := by rw [hcf, hcc, hC]
      attempt := by rw [hcc, haa, hA]
      owner := ⟨by rw [hfid, hcf], by rw [hac, hcc]⟩
      live := hlive
      pointer := by rw [hcur, haa]
      childRunning := hst
      running := hrun
      generation := hgen
      epoch := hepoch }

theorem Fenced.reserved_le (hf : Fenced s fleetId childId attemptId ownerEpoch F C A) :
    A.reservedTokens.toNat ≤ F.budget.tokensReserved.toNat := by
  have hle := Table.le_sum (heldBy C.fleetId) hf.attempt
  rw [← h.reserved _ F hf.fleet] at hle
  simpa [heldBy, Attempt.held, hf.owner.1, hf.running, AttemptStatus.isLive] using hle

/-- What a settlement did: nothing, or a settling move that it reports by one event. -/
def SettleStep (s : FleetKernelStore) (k : MoveKind) (fleetId childId attemptId eventId : String)
    (actualTokens ownerEpoch : UInt64) (s' : FleetKernelStore) (out : CompleteOutcome) : Prop :=
  (s' = s ∧ out = .superseded) ∨
    (out = .completed ∧ ∃ F C A F' C' A' outbox seq,
      Fenced s fleetId childId attemptId ownerEpoch F C A ∧
      F'.budget.tokensCommitted.toNat = F.budget.tokensCommitted.toNat + actualTokens.toNat ∧
      CellAt s F C (some A) (some A') ∧ Move k F C (some A) F' C' (some A') ∧
      (A'.attemptId = A.attemptId ∧ A'.status.isLive = false) ∧
      appendOutbox s.outbox
        (outboxEvent .childDone eventId fleetId (some childId) (some attemptId)) =
          .ok (outbox, seq) ∧
      s' = { s.setCell F' C' (some A') with outbox })

variable {out : CompleteOutcome}

theorem settleRunning_spec (hk : ∀ C A, Settles C A k (child' C) (attempt' A))
    (hok : s.settleRunning fleetId childId attemptId actualTokens ownerEpoch nowMs eventId overflow
      underflow child' attempt' = .ok (s', out)) :
    SettleStep s k fleetId childId attemptId eventId actualTokens ownerEpoch s' out := by
  obtain ⟨⟨⟩, hsafe, hok⟩ := bind_eq_ok.mp hok
  have hsafe := ensureKeySafe_eq_ok.mp hsafe
  split at hok
  case h_2 =>
    cases hok
    exact .inl ⟨rfl, rfl⟩
  rename_i C hC
  split at hok
  case h_2 =>
    cases hok
    exact .inl ⟨rfl, rfl⟩
  rename_i A hA
  split at hok
  case h_2 =>
    cases hok
    exact .inl ⟨rfl, rfl⟩
  rename_i F hF
  split_ifs at hok with hfid hlive hfence
  · cases hok
    exact .inl ⟨rfl, rfl⟩
  · cases hok
    exact .inl ⟨rfl, rfl⟩
  · cases hok
    exact .inl ⟨rfl, rfl⟩
  obtain ⟨committed, hcom₀, hok⟩ := bind_eq_ok.mp hok
  obtain ⟨reserved, hres₀, hok⟩ := bind_eq_ok.mp hok
  obtain ⟨childCommitted, hchild₀, hok⟩ := bind_eq_ok.mp hok
  obtain ⟨⟨outbox, seq⟩, ho, hok⟩ := bind_eq_ok.mp hok
  cases hok
  have hf := Fenced.of_holdsFence h hsafe hC hA hF (not_not.mp hfid) (by simpa using hlive)
    (by simpa using hfence)
  have hcom := checkedAdd_eq_some.mp (orError_eq_ok.mp hcom₀)
  have hres := checkedSub_eq_some.mp (orError_eq_ok.mp hres₀)
  have hchild := checkedAdd_eq_some.mp (orError_eq_ok.mp hchild₀)
  obtain ⟨rfl, rfl, rfl⟩ := And.intro hf.fleetId_eq (And.intro hf.childId_eq hf.attemptId_eq)
  have hm := Move.settle actualTokens committed reserved childCommitted nowMs
    (hk C A) hf.live hf.childRunning hf.pointer hf.running hcom hres hchild
  -- the settled rows keep their identity, so they are written back under their own keys
  obtain ⟨hcf, hcc, -⟩ := hm.cellStep.child
  have hids : (attempt' A).attemptId = A.attemptId ∧ (attempt' A).fleetId = A.fleetId ∧
      (attempt' A).childId = A.childId := by
    rcases hm.cellStep.attempt with ⟨h₁, -⟩ | ⟨h₁, -⟩ | ⟨a, a', h₁, h₂, -, h₃, h₄, h₅, -⟩
    · cases h₁
    · cases h₁
    · cases h₁
      cases h₂
      exact ⟨h₅, h₃, h₄⟩
  refine .inr ⟨rfl, F, C, A, _, _, _, outbox, seq, hf, hcom, ⟨hf.fleet, hf.child, ?_⟩, hm,
    hm.settled (hk C A), ho, ?_⟩
  · rintro _ ⟨rfl⟩
    refine ⟨?_, ?_, ?_⟩
    · rw [hids.1, hf.attempt]
    · exact hids.2.1.trans hf.owner.1
    · exact hids.2.2.trans hf.owner.2
  · simp only [setCell]
    rw [hcf, hcc, hids.1]

/-- **A settlement that takes effect is a settling move, and reports itself by one event.** -/
theorem completeChild_spec {verdict : AcceptanceVerdict} {snapshot : ChildResultSnapshot}
    (hok : s.completeChild fleetId childId attemptId verdict snapshot actualTokens ownerEpoch nowMs
      eventId = .ok (s', out)) :
    SettleStep s .complete fleetId childId attemptId eventId actualTokens ownerEpoch s' out :=
  settleRunning_spec h (fun _ _ => .complete ..) hok

theorem recordEscalation_spec {request : EscalationRequest}
    (hok : s.recordEscalation fleetId childId attemptId request actualTokens ownerEpoch nowMs
      eventId = .ok (s', out)) :
    SettleStep s .escalate fleetId childId attemptId eventId actualTokens ownerEpoch s' out :=
  settleRunning_spec h (fun _ _ => .escalate _) hok

/-- A settlement that reports an error of the token accounts passed its fence, and one of its three
sums left the range. -/
theorem settleRunning_error {e : StoreError}
    (hok : s.settleRunning fleetId childId attemptId actualTokens ownerEpoch nowMs eventId overflow
      underflow child' attempt' = .error e) :
    e.isTokenArithmetic = false ∨
    ∃ F C A, Fenced s fleetId childId attemptId ownerEpoch F C A ∧
      ((e = overflow ∧ 2 ^ 64 ≤ F.budget.tokensCommitted.toNat + actualTokens.toNat) ∨
        (e = .childCommittedOverflow childId ∧
          2 ^ 64 ≤ C.tokensCommitted.toNat + actualTokens.toNat)) := by
  rcases bind_eq_error.mp hok with hok | ⟨⟨⟩, hsafe, hok⟩
  · exact .inl (ensureKeySafe_error hok)
  have hsafe := ensureKeySafe_eq_ok.mp hsafe
  split at hok
  case h_2 => cases hok
  rename_i C hC
  split at hok
  case h_2 => cases hok
  rename_i A hA
  split at hok
  case h_2 => cases hok
  rename_i F hF
  split_ifs at hok with hfid hlive hfence
  · cases hok
  · cases hok
  · cases hok
  have hf := Fenced.of_holdsFence h hsafe hC hA hF (not_not.mp hfid) (by simpa using hlive)
    (by simpa using hfence)
  rcases bind_eq_error.mp hok with hok | ⟨_, -, hok⟩
  · obtain ⟨hn, he⟩ := orError_eq_error.mp hok
    exact .inr ⟨F, C, A, hf, .inl ⟨he.symm, checkedAdd_eq_none.mp hn⟩⟩
  rcases bind_eq_error.mp hok with hok | ⟨_, -, hok⟩
  · -- the invariant rules the underflow out
    have hlt := checkedSub_eq_none.mp (orError_eq_error.mp hok).1
    exact absurd (hf.reserved_le h) (not_le.mpr hlt)
  rcases bind_eq_error.mp hok with hok | ⟨_, -, hok⟩
  · obtain ⟨hn, he⟩ := orError_eq_error.mp hok
    exact .inr ⟨F, C, A, hf, .inr ⟨he.symm, checkedAdd_eq_none.mp hn⟩⟩
  rcases bind_eq_error.mp hok with hok | ⟨_, -, hok⟩
  · exact .inl (appendOutbox_error hok)
  · cases hok

end

end FleetKernelStore

end Octos.Fleet
