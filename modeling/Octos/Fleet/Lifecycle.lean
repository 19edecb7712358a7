import Octos.Fleet.Store.Ops

/-!
# The life cycle of a child

What the store's operations do, said once. A *move* takes one child with its fleet's budget and
the attempt it works on from one state to the next: a planned child is promoted, a ready one
launched, a launching one started, a running one completed or escalated, a blocked one granted or
denied, and an in-flight one reclaimed, retired or restarted. An *effect* on the store is a move
of one cell, or the creation or cancellation of a row. Every operation of the store is a finite
sequence of effects (`Octos.Fleet.Steps`), so what the effects keep holds along every run.

The cell of a child is its own row, its fleet's row, and at most one attempt row. A move says of
the attempt which row it finds (`none` when the key is free) and which it leaves.
-/

namespace Octos.Fleet

/-! ## Moves -/

inductive MoveKind
  | promote | launch | start | complete | escalate | grant | deny | reclaim | retire | restart
  deriving DecidableEq

/-- How a running attempt settles: the child and the attempt it leaves, before their accounts are
closed. -/
inductive Settles (C : FleetChildRecord) (A : Attempt) :
    MoveKind → FleetChildRecord → Attempt → Prop
  | complete (verdict : AcceptanceVerdict) (snapshot : ChildResultSnapshot) :
      Settles C A .complete (completedChild verdict C)
        { A with status := .done, resultSnapshot := some snapshot }
  | escalate (request : EscalationRequest) :
      Settles C A .escalate (blockedChild request C) { A with status := .interrupted }

/-- A move of the cell of a child: the fleet row, the child row and the attempt row before it, and
the three rows after it. -/
inductive Move : MoveKind → FleetRecord → FleetChildRecord → Option Attempt →
    FleetRecord → FleetChildRecord → Option Attempt → Prop
  | promote {F : FleetRecord} {C : FleetChildRecord} (now : UInt64) :
      fleetIsLive F = true → C.status = .planned → C.currentAttemptId = none →
      Move .promote F C none F { C with status := .ready, updatedAtMs := now } none
  /-- A ready child is leased a fresh attempt, whose projected tokens are reserved. -/
  | launch {F : FleetRecord} {C : FleetChildRecord} {A : Attempt} (reserved : UInt64)
      (used : UInt32) (now : UInt64) :
      fleetIsLive F = true → C.status = .ready → C.currentAttemptId = none →
      F.budget.admits A.reservedTokens = true →
      reserved.toNat = F.budget.tokensReserved.toNat + A.reservedTokens.toNat →
      A.status = .leased → A.generation = F.generation → A.schemaVersion ≤ schemaVersion →
      Move .launch F C none
        { F with budget := { F.budget with tokensReserved := reserved }, updatedAtMs := now }
        { C with
          status := .launching, currentAttemptId := some A.attemptId, attemptsUsed := used,
          updatedAtMs := now }
        (some A)
  | start {F : FleetRecord} {C : FleetChildRecord} {A : Attempt} :
      fleetIsLive F = true → C.status = .launching → C.currentAttemptId = some A.attemptId →
      A.status = .leased → A.generation = F.generation →
      Move .start F C (some A) F { C with status := .running } (some { A with status := .running })
  /-- A running attempt settles: its actual tokens are committed, its reservation released. -/
  | settle {k : MoveKind} {F : FleetRecord} {C C₁ : FleetChildRecord} {A A₁ : Attempt}
      (actual committed reserved childCommitted now : UInt64) :
      Settles C A k C₁ A₁ →
      fleetIsLive F = true → C.status = .running → C.currentAttemptId = some A.attemptId →
      A.status = .running →
      committed.toNat = F.budget.tokensCommitted.toNat + actual.toNat →
      reserved.toNat + A.reservedTokens.toNat = F.budget.tokensReserved.toNat →
      childCommitted.toNat = C.tokensCommitted.toNat + actual.toNat →
      Move k F C (some A)
        { F with
          budget := { F.budget with tokensCommitted := committed, tokensReserved := reserved },
          updatedAtMs := now }
        { C₁ with tokensCommitted := childCommitted, updatedAtMs := now }
        (some { A₁ with endedAtMs := some now })
  /-- A blocked child is granted what it asked for and may be launched again. -/
  | grant {F : FleetRecord} {C : FleetChildRecord} (now : UInt64) :
      fleetIsLive F = true → C.status = .blocked → C.currentAttemptId = none →
      Move .grant F C none F
        { C with
          status := .ready, pendingEscalation := none, currentAttemptId := none,
          updatedAtMs := now }
        none
  | deny {F : FleetRecord} {C : FleetChildRecord} (outcome : Option AcceptanceVerdict)
      (now : UInt64) :
      fleetIsLive F = true → C.status = .blocked → C.currentAttemptId = none →
      Move .deny F C none F
        { C with
          status := .failed, outcome, pendingEscalation := none, currentAttemptId := none,
          updatedAtMs := now }
        none
  /-- Recovery takes a live attempt back: the child of a live fleet is ready again, the child of a
  terminal fleet is retired. -/
  | reclaim {k : MoveKind} {F : FleetRecord} {C : FleetChildRecord} {A : Attempt}
      (reserved now : UInt64) :
      (k = if fleetIsLive F then .reclaim else .retire) →
      (C.status = .launching ∨ C.status = .running) → C.currentAttemptId = some A.attemptId →
      A.status.isLive = true →
      reserved.toNat + A.reservedTokens.toNat = F.budget.tokensReserved.toNat →
      Move k F C (some A)
        { F with budget := { F.budget with tokensReserved := reserved }, updatedAtMs := now }
        { C with
          status := if fleetIsLive F then .ready else .cancelled, currentAttemptId := none,
          updatedAtMs := now }
        (some { A with status := .interrupted, endedAtMs := some now })
  /-- A replan rewrites a child that is not in flight. -/
  | restartIdle {F : FleetRecord} {C : FleetChildRecord} (tasks : List PlanTask)
      (succeeded : List String) (generation now : UInt64) :
      fleetIsLive F = true → C.status ≠ .launching → C.status ≠ .running →
      Move .restart F C none F (replanChild tasks succeeded generation now false C) none
  /-- A replan interrupts the live attempt of a child and rewrites the child. -/
  | restartLive {F : FleetRecord} {C : FleetChildRecord} {A : Attempt} (tasks : List PlanTask)
      (succeeded : List String) (generation reserved now : UInt64) :
      fleetIsLive F = true → (C.status = .launching ∨ C.status = .running) →
      C.currentAttemptId = some A.attemptId → A.status.isLive = true →
      reserved.toNat + A.reservedTokens.toNat = F.budget.tokensReserved.toNat →
      Move .restart F C (some A)
        { F with budget := { F.budget with tokensReserved := reserved } }
        (replanChild tasks succeeded generation now true C)
        (some { A with status := .interrupted, endedAtMs := some now })

/-! ## Effects on the store -/

/-- Write the three rows of a cell back. -/
def FleetKernelStore.setCell (s : FleetKernelStore) (F : FleetRecord) (C : FleetChildRecord)
    (A : Option Attempt) : FleetKernelStore :=
  { s with
    fleets := s.fleets.insert C.fleetId F
    children := s.children.insert (childKey C.fleetId C.childId) C
    attempts := match A with
      | none => s.attempts
      | some A => s.attempts.insert (attemptKey C.childId A.attemptId) A }

/-- The store holds the rows of a cell: the fleet, the child, and under the key of the attempt
`A'` about to be written the row `A`. -/
structure CellAt (s : FleetKernelStore) (F : FleetRecord) (C : FleetChildRecord)
    (A A' : Option Attempt) : Prop where
  fleet : s.fleets.get C.fleetId = some F
  child : s.children.get (childKey C.fleetId C.childId) = some C
  attempt : ∀ a, A' = some a → s.attempts.get (attemptKey C.childId a.attemptId) = A ∧
    a.fleetId = C.fleetId ∧ a.childId = C.childId

/-- What an effect touches: the outbox and the decision log, or a row of a fleet. -/
inductive Label
  | events
  | newFleet (fleetId : String)
  | newChild (fleetId : String)
  | newPlan (fleetId : String)
  | editPlan (fleetId : String)
  | cancel (fleetId : String)
  | bump (fleetId : String)
  | move (fleetId : String) (kind : MoveKind)
  deriving DecidableEq

/-- The task ids of a plan with their dependencies. -/
def taskShape (tasks : List PlanTask) : List (String × List String) :=
  tasks.map fun t => (t.taskId, t.deps)

/-- The effects on the store, labelled by what they touch. -/
inductive Effect : Label → FleetKernelStore → FleetKernelStore → Prop
  /-- Events and decisions are recorded. -/
  | events (s : FleetKernelStore) (outbox : Table String OutboxEvent)
      (decisionLog : Table String DecisionEntry) :
      Effect .events s { s with outbox, decisionLog }
  /-- A fleet is created, with nothing reserved and nothing committed. -/
  | newFleet {s : FleetKernelStore} {F : FleetRecord} :
      s.fleets.get F.fleetId = none → keyComponentIsSafe F.fleetId = true →
      F.schemaVersion ≤ schemaVersion →
      F.budget.tokensReserved = 0 → F.budget.tokensCommitted = 0 →
      Effect (.newFleet F.fleetId) s { s with fleets := s.fleets.insert F.fleetId F }
  /-- A child that has never been launched is added to a live fleet. -/
  | newChild {s : FleetKernelStore} {F : FleetRecord} {C : FleetChildRecord} :
      s.fleets.get C.fleetId = some F → fleetIsLive F = true →
      keyComponentIsSafe C.childId = true → C.schemaVersion ≤ schemaVersion →
      (∀ C₀, s.children.get (childKey C.fleetId C.childId) = some C₀ →
        C₀.currentAttemptId = none ∧ C₀.tokensCommitted = 0) →
      C.currentAttemptId = none → C.tokensCommitted = 0 → C.pendingEscalation = none →
      (C.status = .planned ∨ C.status = .ready) →
      Effect (.newChild C.fleetId) s
        { s with children := s.children.insert (childKey C.fleetId C.childId) C }
  /-- A plan is written for a live fleet, at a later revision than the one it replaces. -/
  | newPlan {s : FleetKernelStore} {F : FleetRecord} {P : DurablePlan} :
      s.fleets.get P.fleetId = some F → fleetIsLive F = true → P.schemaVersion ≤ schemaVersion →
      (∀ P₀, s.plans.get P.fleetId = some P₀ → P₀.revision.toNat < P.revision.toNat) →
      Effect (.newPlan P.fleetId) s { s with plans := s.plans.insert P.fleetId P }
  /-- Titles or grants of a live fleet's plan change and its revision moves, its graph does not. -/
  | editPlan {s : FleetKernelStore} {F : FleetRecord} {P P' : DurablePlan} :
      s.fleets.get P'.fleetId = some F → fleetIsLive F = true →
      s.plans.get P'.fleetId = some P → P'.schemaVersion ≤ schemaVersion →
      P.revision.toNat < P'.revision.toNat → taskShape P'.tasks = taskShape P.tasks →
      Effect (.editPlan P'.fleetId) s { s with plans := s.plans.insert P'.fleetId P' }
  | cancel {s : FleetKernelStore} {F : FleetRecord} (now : UInt64) :
      s.fleets.get F.fleetId = some F → fleetIsLive F = true →
      Effect (.cancel F.fleetId) s { s with
        fleets := s.fleets.insert F.fleetId { F with status := .cancelled, updatedAtMs := now } }
  /-- The generation of a live fleet without live attempts moves on. -/
  | bump {s : FleetKernelStore} {F : FleetRecord} (generation now : UInt64) :
      s.fleets.get F.fleetId = some F → fleetIsLive F = true →
      (∀ k A, s.attempts.get k = some A → A.fleetId = F.fleetId → A.status.isLive = false) →
      Effect (.bump F.fleetId) s { s with
        fleets := s.fleets.insert F.fleetId { F with generation, updatedAtMs := now } }
  /-- A cell moves. A promoted child has all its dependencies succeeded. -/
  | cell {s : FleetKernelStore} {k : MoveKind} {F F' : FleetRecord} {C C' : FleetChildRecord}
      {A A' : Option Attempt} :
      CellAt s F C A A' →
      (k = .promote → ∀ d ∈ C.deps, ∃ D,
        s.children.get (childKey C.fleetId d) = some D ∧ D.status = .succeeded) →
      Move k F C A F' C' A' →
      Effect (.move C.fleetId k) s (s.setCell F' C' A')

/-! ## What every move does to its cell -/

/-- The child status and the status of its current attempt fit together. -/
def agrees : ChildStatus → AttemptStatus → Bool
  | .launching, .leased | .running, .running | .succeeded, .done | .failed, .done => true
  | _, _ => false

/-- The child has a worker. -/
def ChildStatus.inFlight : ChildStatus → Bool
  | .launching | .running => true
  | _ => false

/-- The tokens an attempt row holds reserved. -/
def Attempt.held (A : Attempt) : ℕ := if A.status.isLive then A.reservedTokens.toNat else 0

/-- What a move does to the rows of its cell, as far as the invariant of the store depends on
it. -/
structure CellStep (F : FleetRecord) (C : FleetChildRecord) (A : Option Attempt)
    (F' : FleetRecord) (C' : FleetChildRecord) (A' : Option Attempt) : Prop where
  /-- The fleet's identity, generation and budget limit stay. -/
  fleet : F'.fleetId = F.fleetId ∧ F'.schemaVersion = F.schemaVersion ∧ F'.status = F.status ∧
    F'.generation = F.generation ∧ F'.budget.tokenBudget = F.budget.tokenBudget
  /-- The child's identity stays, and its row stays readable. -/
  child : C'.fleetId = C.fleetId ∧ C'.childId = C.childId ∧
    (C.schemaVersion ≤ schemaVersion → C'.schemaVersion ≤ schemaVersion)
  /-- No attempt is written, or a fresh one, or one that continues the live one that was there. -/
  attempt : (A = none ∧ A' = none) ∨
    (A = none ∧ ∃ a', A' = some a' ∧ a'.schemaVersion ≤ schemaVersion) ∨
    ∃ a a', A = some a ∧ A' = some a' ∧ a.status.isLive = true ∧ a'.fleetId = a.fleetId ∧
      a'.childId = a.childId ∧ a'.attemptId = a.attemptId ∧ a'.generation = a.generation ∧
      a'.schemaVersion = a.schemaVersion ∧ a'.reservedTokens = a.reservedTokens
  /-- Only the current attempt of a child in flight is worked on. -/
  pointer : C.status.inFlight = false ∨ ∃ a', A' = some a' ∧ C.currentAttemptId = some a'.attemptId
  /-- The child is left idle, or with the written attempt, or as it was. -/
  link : (C'.currentAttemptId = none ∧ C'.status.inFlight = false) ∨
    (∃ a', A' = some a' ∧ C'.currentAttemptId = some a'.attemptId ∧
      agrees C'.status a'.status = true) ∨
    (A' = none ∧ C'.currentAttemptId = C.currentAttemptId ∧ C'.status = C.status)
  /-- A live attempt stays the child's current one, of the fleet's generation. -/
  live : ∀ a', A' = some a' → a'.status.isLive = true →
    C'.currentAttemptId = some a'.attemptId ∧ a'.generation = F.generation
  /-- A request is pending exactly while the child is blocked. -/
  escalation : (C.status = .blocked ↔ C.pendingEscalation.isSome) →
    (C'.status = .blocked ↔ C'.pendingEscalation.isSome)
  /-- Reserved tokens move with the attempt's. -/
  reserved : F'.budget.tokensReserved.toNat + A.elim 0 Attempt.held =
    F.budget.tokensReserved.toNat + A'.elim 0 Attempt.held
  /-- Committed tokens move with the child's. -/
  committed : F'.budget.tokensCommitted.toNat + C.tokensCommitted.toNat =
    F.budget.tokensCommitted.toNat + C'.tokensCommitted.toNat

section

variable (tasks : List PlanTask) (succeeded : List String) (generation now : UInt64) (b : Bool)
  (C : FleetChildRecord)

@[simp] theorem replanChild_keeps :
    (replanChild tasks succeeded generation now b C).fleetId = C.fleetId ∧
    (replanChild tasks succeeded generation now b C).childId = C.childId ∧
    (replanChild tasks succeeded generation now b C).schemaVersion = C.schemaVersion ∧
    (replanChild tasks succeeded generation now b C).tokensCommitted = C.tokensCommitted := by
  unfold replanChild
  dsimp only
  split_ifs <;> exact ⟨rfl, rfl, rfl, rfl⟩

end

theorem readiness_cases (succeeded deps : List String) :
    readiness succeeded deps = .ready ∨ readiness succeeded deps = .planned := by
  unfold readiness
  split_ifs
  · exact .inl rfl
  · exact .inr rfl

theorem replanChild_cases (tasks : List PlanTask) (succeeded : List String)
    (generation now : UInt64) (b : Bool) (C : FleetChildRecord) :
    let C' := replanChild tasks succeeded generation now b C
    (C.status = .succeeded ∧ C'.status = .succeeded ∧
      C'.currentAttemptId = (if b then none else C.currentAttemptId) ∧
      C'.pendingEscalation = C.pendingEscalation) ∨
    ((C'.status = .ready ∨ C'.status = .planned ∨ C'.status = .cancelled) ∧
      C'.currentAttemptId = none ∧ C'.pendingEscalation = none) := by
  unfold replanChild
  by_cases hin : (tasks.map (·.taskId)).contains C.childId = true
  · rw [if_pos hin]
    by_cases hs : C.status = .succeeded
    · rw [if_pos hs]
      exact .inl ⟨hs, hs, rfl, rfl⟩
    · rw [if_neg hs]
      exact .inr ⟨(readiness_cases ..).imp_right .inl, rfl, rfl⟩
  · rw [if_neg hin]
    exact .inr ⟨.inr (.inr rfl), rfl, rfl⟩

variable {C C' : FleetChildRecord}

theorem CellStep.of_idle {F : FleetRecord}
    (hid : C'.fleetId = C.fleetId ∧ C'.childId = C.childId ∧ C'.schemaVersion = C.schemaVersion)
    (hs : C.status.inFlight = false) (hc : C'.currentAttemptId = none ∧ C'.status.inFlight = false ∨
      C'.currentAttemptId = C.currentAttemptId ∧ C'.status = C.status)
    (he : (C.status = .blocked ↔ C.pendingEscalation.isSome) →
      (C'.status = .blocked ↔ C'.pendingEscalation.isSome))
    (ht : C'.tokensCommitted = C.tokensCommitted) : CellStep F C none F C' none where
  fleet := ⟨rfl, rfl, rfl, rfl, rfl⟩
  child := ⟨hid.1, hid.2.1, fun h => hid.2.2 ▸ h⟩
  attempt := .inl ⟨rfl, rfl⟩
  pointer := .inl hs
  link := hc.imp_right fun h => .inr ⟨rfl, h⟩
  live := nofun
  escalation := he
  reserved := rfl
  committed := by rw [ht]

variable {F F' : FleetRecord}

theorem CellStep.of_settled {a a' : Attempt}
    (hf : F'.fleetId = F.fleetId ∧ F'.schemaVersion = F.schemaVersion ∧ F'.status = F.status ∧
      F'.generation = F.generation ∧ F'.budget.tokenBudget = F.budget.tokenBudget)
    (hid : C'.fleetId = C.fleetId ∧ C'.childId = C.childId ∧
      (C.schemaVersion ≤ schemaVersion → C'.schemaVersion ≤ schemaVersion))
    (ha : a.status.isLive = true ∧ a'.status.isLive = false ∧ a'.fleetId = a.fleetId ∧
      a'.childId = a.childId ∧ a'.attemptId = a.attemptId ∧ a'.generation = a.generation ∧
      a'.schemaVersion = a.schemaVersion ∧ a'.reservedTokens = a.reservedTokens)
    (hp : C.currentAttemptId = some a.attemptId)
    (hc : C'.currentAttemptId = none ∧ C'.status.inFlight = false ∨
      C'.currentAttemptId = some a.attemptId ∧ agrees C'.status a'.status = true)
    (he : (C.status = .blocked ↔ C.pendingEscalation.isSome) →
      (C'.status = .blocked ↔ C'.pendingEscalation.isSome))
    (hr : F'.budget.tokensReserved.toNat + a.reservedTokens.toNat = F.budget.tokensReserved.toNat)
    (ht : F'.budget.tokensCommitted.toNat + C.tokensCommitted.toNat =
      F.budget.tokensCommitted.toNat + C'.tokensCommitted.toNat) :
    CellStep F C (some a) F' C' (some a') := by
  obtain ⟨hlive, hset, hids⟩ := ha
  refine ⟨hf, hid, ?_, ?_, ?_, ?_, he, ?_, ht⟩
  · exact .inr (.inr ⟨a, a', rfl, rfl, hlive, hids⟩)
  · exact .inr ⟨a', rfl, hids.2.2.1 ▸ hp⟩
  · refine hc.imp_right fun h => .inl ⟨a', rfl, ?_, h.2⟩
    rw [h.1, hids.2.2.1]
  · rintro _ ⟨rfl⟩ h
    rw [hset] at h
    cases h
  · simp only [Option.elim_some, Attempt.held, hlive, hset, if_true, Bool.false_eq_true, if_false]
    omega

variable {k : MoveKind}

/-- **Every move is a cell step.** -/
theorem Move.cellStep
    {A A' : Option Attempt} (h : Move k F C A F' C' A') : CellStep F C A F' C' A' := by
  cases h with
  | promote now hl hs hc =>
    refine .of_idle ⟨rfl, rfl, rfl⟩ (by rw [hs]; rfl) (.inl ⟨hc, rfl⟩) (fun he => ?_) rfl
    rw [hs] at he
    simpa using he
  | launch reserved used now hl hs hc hadm hr hst hgen hver =>
    rename_i A
    refine ⟨⟨rfl, rfl, rfl, rfl, rfl⟩, ⟨rfl, rfl, id⟩, ?_, ?_, ?_, ?_, ?_, ?_, rfl⟩
    · exact .inr (.inl ⟨rfl, A, rfl, hver⟩)
    · exact .inl (by rw [hs]; rfl)
    · exact .inr (.inl ⟨A, rfl, rfl, by rw [hst]; rfl⟩)
    · rintro _ ⟨rfl⟩ -
      exact ⟨rfl, hgen⟩
    · rw [hs]
      intro he
      simpa using he
    · simp [Attempt.held, hst, AttemptStatus.isLive, hr]
  | start hl hs hc hA hgen =>
    rename_i A
    refine ⟨⟨rfl, rfl, rfl, rfl, rfl⟩, ⟨rfl, rfl, id⟩, ?_, ?_, ?_, ?_, ?_, ?_, rfl⟩
    · exact .inr (.inr ⟨A, _, rfl, rfl, by rw [hA]; rfl, rfl, rfl, rfl, rfl, rfl, rfl⟩)
    · exact .inr ⟨_, rfl, hc⟩
    · exact .inr (.inl ⟨_, rfl, hc, rfl⟩)
    · rintro _ ⟨rfl⟩ -
      exact ⟨hc, hgen⟩
    · rw [hs]
      intro he
      simpa using he
    · simp [Attempt.held, hA, AttemptStatus.isLive]
  | settle _ _ _ _ _ hk _ hs hc hA _ hres =>
    -- a running child has no request pending, so a completed one has none either
    cases hk with
    | complete =>
      refine .of_settled ⟨rfl, rfl, rfl, rfl, rfl⟩ ⟨rfl, rfl, id⟩
        ⟨by rw [hA]; rfl, rfl, rfl, rfl, rfl, rfl, rfl, rfl⟩ hc (.inr ⟨hc, ?_⟩)
          (fun he => ?_) hres ?_
      · simp only [completedChild]
        split_ifs <;> rfl
      · rw [hs] at he
        simp only [completedChild]
        split_ifs <;> simpa using he
      · dsimp only
        omega
    | escalate =>
      refine .of_settled ⟨rfl, rfl, rfl, rfl, rfl⟩ ⟨rfl, rfl, fun _ => UInt32.le_refl _⟩
        ⟨by rw [hA]; rfl, rfl, rfl, rfl, rfl, rfl, rfl, rfl⟩ hc (.inl ⟨rfl, rfl⟩)
          (fun _ => ?_) hres ?_
      · simp [blockedChild]
      · dsimp only
        omega
  | grant now hl hs | deny outcome now hl hs =>
    exact .of_idle ⟨rfl, rfl, rfl⟩ (by rw [hs]; rfl) (.inl ⟨rfl, rfl⟩) (fun _ => by simp) rfl
  | reclaim _ _ _ hs hc hA hr =>
    refine .of_settled ⟨rfl, rfl, rfl, rfl, rfl⟩ ⟨rfl, rfl, id⟩
      ⟨hA, rfl, rfl, rfl, rfl, rfl, rfl, rfl⟩ hc (.inl ⟨rfl, ?_⟩) (fun he => ?_) hr rfl
    · split_ifs <;> rfl
    · have hp : ¬ C.pendingEscalation.isSome = true := fun h => by
        rcases hs with hs | hs <;> · rw [he.mpr h] at hs; cases hs
      split_ifs <;> simpa using hp
  | restartIdle tasks succeeded generation now hl hs₁ hs₂ =>
    have hs : C.status.inFlight = false := by
      revert hs₁ hs₂
      cases C.status <;> simp [ChildStatus.inFlight]
    rcases replanChild_cases tasks succeeded generation now false C with
      ⟨h₁, h₂, h₃, h₄⟩ | ⟨h₁, h₂, h₃⟩
    · refine .of_idle (by simp) hs (.inr ⟨h₃, by rw [h₁, h₂]⟩) (fun he => ?_) (by simp)
      rw [h₂, h₄, ← h₁]
      exact he
    · refine .of_idle (by simp) hs (.inl ⟨h₂, ?_⟩) (fun _ => ?_) (by simp)
      · rcases h₁ with h | h | h <;> rw [h] <;> rfl
      · rcases h₁ with h | h | h <;> simp [h, h₃]
  | restartLive tasks succeeded generation _ now _ hs hc hA hr =>
    rcases replanChild_cases tasks succeeded generation now true C with
      ⟨h₁, -⟩ | ⟨h₁, h₂, h₃⟩
    · rcases hs with hs | hs <;> · rw [h₁] at hs; cases hs
    · refine .of_settled ⟨rfl, rfl, rfl, rfl, rfl⟩ (by simp)
        ⟨hA, rfl, rfl, rfl, rfl, rfl, rfl, rfl⟩ hc (.inl ⟨h₂, ?_⟩) (fun _ => ?_) hr (by simp)
      · rcases h₁ with h | h | h <;> rw [h] <;> rfl
      · rcases h₁ with h | h | h <;> simp [h, h₃]

theorem Move.settled {C C' C₁ : FleetChildRecord}
    {A A' A₁ : Attempt} (hm : Move k F C (some A) F' C' (some A')) (hk : Settles C A k C₁ A₁) :
    A'.attemptId = A.attemptId ∧ A'.status.isLive = false := by
  cases hm with
  | settle _ _ _ _ _ hs =>
    cases hs with
    | complete | escalate => exact ⟨rfl, rfl⟩
  | start => cases hk
  | reclaim | restartLive => exact ⟨rfl, rfl⟩

end Octos.Fleet
