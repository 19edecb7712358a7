import Octos.Fleet.Steps

/-!
# Errors of the token accounts

Which calls can report that a token count left its range. Outside the settlements, none can: a
launch is admitted before it adds, the loops of a replan and of the recovery release reservations
that are there, and no other operation computes with tokens. A settlement can report only an
overflow of its actual tokens.
-/

namespace Octos.Fleet

/-- The transaction reports no error of the token accounts. -/
def Benign {α : Type} (x : Except StoreError α) : Prop :=
  ∀ e, x = .error e → e.isTokenArithmetic = false

section

variable {α β : Type} {x y : Except StoreError α} {e : StoreError} (a : α)

@[simp] theorem benign_ok : Benign (.ok a : Except StoreError α) := nofun

@[simp] theorem benign_pure : Benign (pure a : Except StoreError α) := nofun

@[simp] theorem benign_error :
    Benign (.error e : Except StoreError α) ↔ e.isTokenArithmetic = false := by
  simp [Benign]

variable {f : α → Except StoreError β}

@[simp] theorem benign_bind : Benign (x >>= f) ↔ Benign x ∧ ∀ a, x = .ok a → Benign (f a) := by
  simp only [Benign, bind_eq_error]
  constructor
  · exact fun h => ⟨fun e he => h e (.inl he), fun a ha e he => h e (.inr ⟨a, ha, he⟩)⟩
  · rintro ⟨hx, hf⟩ e (he | ⟨a, ha, he⟩)
    · exact hx e he
    · exact hf a ha e he

theorem Benign.bind_of (hx : Benign x)
    (hf : ∀ a, x = .ok a → Benign (f a)) : Benign (x >>= f) := benign_bind.mpr ⟨hx, hf⟩

@[simp] theorem benign_map {f : α → β} : Benign (f <$> x) ↔ Benign x := by
  cases x with
  | ok a => exact iff_of_true nofun nofun
  | error e => exact benign_error.trans benign_error.symm

@[simp] theorem benign_ite {c : Prop} [Decidable c] :
    Benign (if c then x else y) ↔ (c → Benign x) ∧ (¬ c → Benign y) := by
  split_ifs with hc <;> simp [hc]

@[simp] theorem benign_orError {o : Option α} :
    Benign (orError o e) ↔ (o = none → e.isTokenArithmetic = false) := by
  cases o <;> simp [orError]

@[simp] theorem benign_ensureKeySafe (cs : List String) : Benign (ensureKeySafe cs) :=
  fun _ he => ensureKeySafe_error he

@[simp] theorem benign_appendOutbox (outbox : Table String OutboxEvent) (ev : OutboxEvent) :
    Benign (appendOutbox outbox ev) := fun _ he => appendOutbox_error he

theorem benign_foldlM {f : β → α → Except StoreError β} (hf : ∀ b a, Benign (f b a)) (l : List α)
    (b : β) : Benign (l.foldlM f b) := by
  induction l generalizing b with
  | nil => exact benign_pure b
  | cons a l ih => simp [hf, ih]

end

/-- The admitted sum bounds the reservation. -/
theorem FleetBudget.checkedAdd_of_admits {b : FleetBudget} {projected : UInt64}
    (h : b.admits projected = true) : checkedAdd b.tokensReserved projected ≠ none := by
  rw [Ne, checkedAdd_eq_none]
  have hle := (FleetBudget.admits_iff b projected).mp h
  have := b.tokenBudget.toNat_lt
  omega

namespace FleetKernelStore

attribute [simp] StoreError.isTokenArithmetic StoreError.isReservationUnderflow

variable (s : FleetKernelStore)

@[simp] theorem benign_createFleet (f k : String) (r : Option String) (p : String) (b : UInt64)
    (h : Bool) (n : UInt64) : Benign (s.createFleet f k r p b h n) := by
  refine .bind_of (benign_ensureKeySafe _) fun _ _ => ?_
  split <;> simp

@[simp] theorem benign_createPlan (p : DurablePlan) : Benign (s.createPlan p) := by
  unfold createPlan
  aesop

@[simp] theorem benign_createFleetWithPlan (k : String) (r : Option String) (w : Option Bool)
    (p : String) (b : UInt64) (h : Bool) (pl : DurablePlan) (n : UInt64) :
    Benign (s.createFleetWithPlan k r w p b h pl n) := by
  have hchild : ∀ c t, Benign (insertGenesisChild pl.fleetId n c t) := by
    intro c t
    unfold insertGenesisChild
    split <;> simp
  refine .bind_of (benign_ensureKeySafe _) fun _ _ => ?_
  split <;> simp [benign_foldlM hchild]

@[simp] theorem benign_addChild (f c : String) (d : List String) (n : UInt64) :
    Benign (s.addChild f c d n) := by
  unfold addChild
  aesop

@[simp] theorem benign_markReady (f c : String) (n : UInt64) : Benign (s.markReady f c n) := by
  simp [markReady]

variable (f : String)

@[simp] theorem benign_resolveAndCollectReady (n : UInt64) :
    Benign (s.resolveAndCollectReady f n) := by
  simp [resolveAndCollectReady]

@[simp] theorem benign_cancelFleet (n : UInt64) : Benign (s.cancelFleet f n) := by
  refine .bind_of (benign_ensureKeySafe _) fun _ _ => ?_
  split <;> simp

@[simp] theorem benign_launchChild (f c : String) (t n o l : UInt64) (a e : String) :
    Benign (s.launchChild f c t n o l a e) := by
  have hreserve := @FleetBudget.checkedAdd_of_admits
  unfold launchChild
  aesop

theorem benign_replan {s : FleetKernelStore} (h : KernelInv s) (f : String) (r : UInt64)
    (p : DurablePlan) (n : UInt64) : Benign (s.replan f r p n) := by
  refine .bind_of (benign_ensureKeySafe _) fun _ hkey => ?_
  have hsafe := ensureKeySafe_eq_ok.mp hkey f (List.mem_singleton.mpr rfl)
  refine .bind_of (benign_ensureKeySafe _) fun _ hkeys => ?_
  have htasks : ∀ t ∈ p.tasks, keyComponentIsSafe t.taskId = true := fun t ht =>
    ensureKeySafe_eq_ok.mp hkeys _ (List.mem_flatMap.mpr ⟨t, ht, List.mem_cons_self⟩)
  refine .bind_of (by simp) fun P hP => .bind_of (by simp) fun _ hdec => ?_
  obtain ⟨-, rfl⟩ := decodeRow_eq_some.mp (orError_eq_ok.mp hdec)
  refine benign_ite.mpr ⟨fun _ => by simp, fun _ => ?_⟩
  split_ifs with hrev
  · exact benign_pure _
  refine .bind_of (by simp) fun F hF => .bind_of (by simp) fun _ hdec => ?_
  obtain ⟨-, rfl⟩ := decodeRow_eq_some.mp (orError_eq_ok.mp hdec)
  refine benign_ite.mpr ⟨fun _ => by simp, fun _ => ?_⟩
  split_ifs with hterm
  · exact benign_pure _
  refine .bind_of (by simp) fun newGen _ => .bind_of (by simp) fun _ hnew => ?_
  simp only [h.prefixChildren_eq hsafe, h.undecodableIds_eq hsafe, List.append_nil]
  split
  · exact benign_pure _
  -- past the checks, the loop cannot fail
  have hnew := checkedAdd_eq_some.mp (orError_eq_ok.mp hnew)
  rw [← not_not.mp hrev] at hnew
  obtain ⟨st, hst, -⟩ := replan_commit (s.replanSucceeded f p.tasks) newGen n h hsafe htasks
    (orError_eq_ok.mp hF) (by simpa using hterm) (orError_eq_ok.mp hP) hnew
  unfold replanSucceeded at hst
  rw [hst]
  exact benign_ok _

@[simp] theorem benign_markRunning (c a : String) : Benign (s.markRunning c a) := by
  unfold markRunning
  aesop

@[simp] theorem benign_retitleTask (r : UInt64) (t a b : String) :
    Benign (s.retitleTask f r t a b) := by
  simp [retitleTask]

@[simp] theorem benign_setTaskGrant (r : UInt64) (t : String) (g : WorkerGrant)
    (n : UInt64) : Benign (s.setTaskGrant f r t g n) := by
  unfold setTaskGrant
  aesop

@[simp] theorem benign_denyEscalation (f c r : String) (n : UInt64) (e : String) :
    Benign (s.denyEscalation f c r n e) := by
  unfold denyEscalation
  aesop

@[simp] theorem benign_appendEvent (e : OutboxEvent) : Benign (s.appendEvent e) := by
  simp [appendEvent]

@[simp] theorem benign_claimNext (c : String) (n t : UInt64) (k : String) :
    Benign (s.claimNext c n t k) := by
  unfold claimNext
  split <;> simp

@[simp] theorem benign_ack (q : UInt64) (c k : String) : Benign (s.ack q c k) := by
  simp [ack]

@[simp] theorem benign_appendDecision (f a : String) (k : DecisionKind) (n : String) (t : UInt64) :
    Benign (s.appendDecision f a k n t) := by
  simp [appendDecision]

end FleetKernelStore

open FleetKernelStore

/-- The attempt a call settles, with the tokens it reports: the child, the attempt, the tokens and
the epoch of the caller. -/
def Op.settling : Op → Option (String × String × String × UInt64 × UInt64)
  | .completeChild f c a _ _ t o _ _ => some (f, c, a, t, o)
  | .recordEscalation f c a _ t o _ _ => some (f, c, a, t, o)
  | _ => none

variable {s : FleetKernelStore} {op : Op}

theorem Op.touches_of_settling_eq_none (hop : op.settling = none) {l : Label}
    (hl : op.Touches l) (f : String) : l ≠ .move f .complete ∧ l ≠ .move f .escalate := by
  cases op with
  | completeChild => cases hop
  | recordEscalation => cases hop
  | markRunning =>
    obtain ⟨g, rfl⟩ := hl
    exact ⟨nofun, nofun⟩
  | reconcile =>
    obtain ⟨g, rfl | rfl⟩ := hl <;> exact ⟨nofun, nofun⟩
  | _ =>
    constructor <;> rintro rfl <;>
      simp [Op.Touches, genesisLabel, replanLabel, grantLabel, denyLabel] at hl

/-- **Every call but a settlement is benign.** -/
theorem Op.perform_benign (h : KernelInv s) (hop : op.settling = none) : Benign (op.perform s) := by
  cases op with
  | completeChild => cases hop
  | recordEscalation => cases hop
  | replan => exact benign_map.mpr (benign_replan h _ _ _ _)
  | reconcile nowMs ownerEpoch =>
    obtain ⟨s', out, hok, -⟩ := reconcile_spec h nowMs ownerEpoch
    simp [Op.perform, hok]
  | _ => simp [Op.perform]

variable {e : StoreError}

/-- A settlement that reports an error of the token accounts passed its fence, and its actual
tokens overflow the fleet's or the child's committed tokens. No reservation underflows. -/
theorem settlement_error (h : KernelInv s) {f c a : String} {t o : UInt64}
    (hop : op.settling = some (f, c, a, t, o)) (he : op.perform s = .error e)
    (harith : e.isTokenArithmetic = true) :
    e.isReservationUnderflow = false ∧ ∃ F C A, Fenced s f c a o F C A ∧
      (2 ^ 64 ≤ F.budget.tokensCommitted.toNat + t.toNat ∨
        2 ^ 64 ≤ C.tokensCommitted.toNat + t.toNat) := by
  have hmap : ∀ {x : Except StoreError (Committed CompleteOutcome)},
      Prod.fst <$> x = .error e → x = .error e := by
    intro x hx
    cases x with
    | ok p => cases hx
    | error e' => exact congrArg Except.error (Except.error.inj hx)
  cases op with
  | completeChild | recordEscalation =>
    cases hop
    rcases settleRunning_error h (hmap he) with hb | ⟨F, C, A, hf, ⟨rfl, hover⟩ | ⟨rfl, hover⟩⟩
    · rw [hb] at harith
      cases harith
    · exact ⟨rfl, F, C, A, hf, .inl hover⟩
    · exact ⟨rfl, F, C, A, hf, .inr hover⟩
  | _ => cases hop

theorem Op.perform_no_underflow (h : KernelInv s)
    (he : op.perform s = .error e) : e.isReservationUnderflow = false := by
  by_cases harith : e.isTokenArithmetic = true
  · cases hop : op.settling with
    | none =>
      rw [Op.perform_benign h hop e he] at harith
      cases harith
    | some r => exact (settlement_error h hop he harith).1
  · -- an underflow is an error of the token accounts
    revert harith
    cases e <;> simp [StoreError.isTokenArithmetic, StoreError.isReservationUnderflow]

end Octos.Fleet
