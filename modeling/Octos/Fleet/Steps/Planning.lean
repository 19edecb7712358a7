import Octos.Fleet.Steps.Attempts
import Octos.Fleet.Steps.Create

/-!
# Plan operations as effects

Retitling edits the plan. A grant or a denial that takes effect moves the blocked child and moves
the revision of the plan. A replan that takes effect restarts the fleet's children one after the
other, adds the new ones, writes the plan, and moves the fleet to its next generation: by then no
attempt of the fleet is live, so none is left behind in the old generation.

The loop of a replan works on local copies of two tables and of the fleet's reservation. Read back
into the store after each step, with the reservation written to the fleet's row, they satisfy the
invariant, so the next subtraction cannot underflow.
-/

namespace Octos.Fleet

open List Table

/-! ## Editing one task -/

theorem taskShape_updateTask {taskId : String} {g : PlanTask → PlanTask}
    (hg : ∀ t, (g t).taskId = t.taskId ∧ (g t).deps = t.deps) (tasks : List PlanTask) :
    taskShape (updateTask taskId g tasks) = taskShape tasks := by
  induction tasks with
  | nil => rfl
  | cons t tasks ih =>
    rw [updateTask]
    by_cases ht : t.taskId = taskId
    · rw [if_pos ht]
      simp [taskShape, hg]
    · rw [if_neg ht]
      simp only [taskShape, map_cons] at ih ⊢
      rw [ih]

namespace FleetKernelStore

variable {s s' : FleetKernelStore}
  {fleetId childId taskId : String} {F : FleetRecord} {C : FleetChildRecord}
  {P : DurablePlan} {expectedRevision nowMs : UInt64} {out : PlanMutateOutcome}

section

variable (h : KernelInv s)
include h

theorem editPlan_effect (tasks : List PlanTask) {newRev : UInt64}
    (hF : s.fleets.get fleetId = some F) (hlive : fleetIsLive F = true)
    (hP : s.plans.get fleetId = some P) (hrev : newRev.toNat = P.revision.toNat + 1)
    (hshape : taskShape tasks = taskShape P.tasks) :
    Effect (.editPlan fleetId) s { s with
      plans := s.plans.insert fleetId
        { P with tasks, revision := newRev, schemaVersion := schemaVersion } } := by
  obtain rfl := (h.planRow _ P hP).1
  have hlt : P.revision.toNat < newRev.toNat := by omega
  exact @Effect.editPlan s F P { P with tasks, revision := newRev, schemaVersion := schemaVersion }
    hF hlive hP (UInt32.le_refl _) hlt hshape

theorem retitleTask_steps {title detail : String}
    (hok : s.retitleTask fleetId expectedRevision taskId title detail = .ok (s', out)) :
    StepsIn Effect (· = .editPlan fleetId) s s' := by
  obtain ⟨_, -, hok⟩ := bind_eq_ok.mp hok
  split_ifs at hok with hterm
  · cases hok
    exact .refl s
  obtain ⟨F, hF, hlive⟩ := fleetLive_eq_true h (by simpa using hterm)
  obtain ⟨P, hP, hok⟩ := readRow_eq_ok hok
  split_ifs at hok with hid hrev htask
  · cases hok
    exact .refl s
  · obtain rfl := not_not.mp hrev
    obtain ⟨newRev, hnew, hok⟩ := bind_eq_ok.mp hok
    cases hok
    have hnew := checkedAdd_eq_some.mp (orError_eq_ok.mp hnew)
    exact .single rfl (editPlan_effect h _ hF hlive hP hnew
      (taskShape_updateTask (by intro t; exact ⟨rfl, rfl⟩) _))

/-! ## The decisions on a blocked child -/

def grantedChild (nowMs : UInt64) (C : FleetChildRecord) : FleetChildRecord :=
  { C with
    status := .ready, pendingEscalation := none, currentAttemptId := none, updatedAtMs := nowMs }

def deniedChild (reason : String) (nowMs : UInt64) (C : FleetChildRecord) : FleetChildRecord :=
  { C with
    status := .failed, outcome := some (.rejected s!"escalation denied: {reason}"),
    pendingEscalation := none, currentAttemptId := none, updatedAtMs := nowMs }

/-- The blocked child of a live fleet: the rows a decision on it reads. -/
structure Deciding (s : FleetKernelStore) (fleetId childId : String) (F : FleetRecord)
    (C : FleetChildRecord) : Prop where
  fleetId_eq : C.fleetId = fleetId
  childId_eq : C.childId = childId
  fleet : s.fleets.get C.fleetId = some F
  live : fleetIsLive F = true
  child : s.children.get (childKey C.fleetId C.childId) = some C
  blocked : C.status = .blocked

section

variable (hd : Deciding s fleetId childId F C)
include hd

theorem Deciding.idle : C.currentAttemptId = none := by
  refine Option.eq_none_iff_forall_not_mem.mpr fun a ha => ?_
  obtain ⟨A, -, -, hag⟩ := h.current _ C hd.child a ha
  rw [hd.blocked] at hag
  cases hag

theorem Deciding.grant (nowMs : UInt64) :
    Effect (.move fleetId .grant) s { s with
      children := s.children.insert (childKey fleetId childId) (grantedChild nowMs C) } := by
  obtain ⟨rfl, rfl⟩ := And.intro hd.fleetId_eq hd.childId_eq
  exact childMove_effect hd.fleet hd.child nofun (.grant nowMs hd.live hd.blocked (hd.idle h))

theorem Deciding.deny (reason : String) (nowMs : UInt64) :
    Effect (.move fleetId .deny) s { s with
      children := s.children.insert (childKey fleetId childId) (deniedChild reason nowMs C) } := by
  obtain ⟨rfl, rfl⟩ := And.intro hd.fleetId_eq hd.childId_eq
  exact childMove_effect hd.fleet hd.child nofun (.deny _ nowMs hd.live hd.blocked (hd.idle h))

end

theorem Deciding.of_reads (hsafe : keyComponentIsSafe fleetId = true)
    (hlive : s.fleetLive fleetId = true) (hC : s.child fleetId childId = some C)
    (hst : C.status = .blocked) : ∃ F, Deciding s fleetId childId F C := by
  obtain ⟨F, hF, hF'⟩ := fleetLive_eq_true h hlive
  rw [h.child_eq hsafe] at hC
  obtain ⟨rfl, rfl⟩ := h.child_ids hsafe hC
  exact ⟨F, rfl, rfl, hF, hF', hC, hst⟩

variable {grant : WorkerGrant}

/-- **A grant that takes effect resumes the blocked child and writes the grant to the plan.** -/
theorem setTaskGrant_spec
    (hok : s.setTaskGrant fleetId expectedRevision taskId grant nowMs = .ok (s', out)) :
    (s' = s ∧ ∀ r, out ≠ .mutated r) ∨
    ∃ F P C newRev, out = .mutated newRev ∧ Deciding s fleetId taskId F C ∧
      s.plans.get fleetId = some P ∧ P.revision = expectedRevision ∧
      newRev.toNat = P.revision.toNat + 1 ∧ P.tasks.any (·.taskId = taskId) = true ∧
      s' = { s with
        plans := s.plans.insert fleetId
          { P with
            tasks := updateTask taskId (fun t => { t with grant }) P.tasks, revision := newRev,
            schemaVersion := schemaVersion }
        children := s.children.insert (childKey fleetId taskId) (grantedChild nowMs C) } := by
  obtain ⟨⟨⟩, hkeys, hok⟩ := bind_eq_ok.mp hok
  have hsafe := ensureKeySafe_eq_ok.mp hkeys fleetId (by simp)
  split_ifs at hok with hterm
  · cases hok
    exact .inl ⟨rfl, nofun⟩
  obtain ⟨P, hP, hok⟩ := readRow_eq_ok hok
  split_ifs at hok with hid hrev htask
  · cases hok
    exact .inl ⟨rfl, nofun⟩
  split at hok
  · cases hok
    exact .inl ⟨rfl, nofun⟩
  · rename_i C hC
    split_ifs at hok with hst
    · cases hok
      exact .inl ⟨rfl, nofun⟩
    · obtain rfl := not_not.mp hrev
      obtain ⟨newRev, hnew, hok⟩ := bind_eq_ok.mp hok
      cases hok
      obtain ⟨F, hd⟩ := Deciding.of_reads h hsafe (by simpa using hterm) hC (not_not.mp hst)
      have hnew := checkedAdd_eq_some.mp (orError_eq_ok.mp hnew)
      refine .inr ⟨F, P, C, newRev, rfl, hd, hP, rfl, hnew, ?_, rfl⟩
      simpa using htask

def grantLabel (fleetId : String) (l : Label) : Prop :=
  l = .editPlan fleetId ∨ l = .move fleetId .grant

theorem setTaskGrant_steps
    (hok : s.setTaskGrant fleetId expectedRevision taskId grant nowMs = .ok (s', out)) :
    StepsIn Effect (grantLabel fleetId) s s' := by
  rcases setTaskGrant_spec h hok with ⟨rfl, -⟩ | ⟨F, P, C, newRev, -, hd, hP, -, hnew, -, rfl⟩
  · exact .refl _
  · have he := hd.grant h nowMs
    obtain rfl := hd.fleetId_eq
    exact StepsIn.trans (.single (.inr rfl) he) (.single (.inl rfl)
      (editPlan_effect (h.effect he) _ hd.fleet hd.live hP hnew
        (taskShape_updateTask (by intro t; exact ⟨rfl, rfl⟩) _)))

variable {reason eventId : String}

/-- **A denial that takes effect fails the blocked child, moves the revision of the plan, and
reports itself by one event.** -/
theorem denyEscalation_spec {out : DenyEscalationOutcome}
    (hok : s.denyEscalation fleetId childId reason nowMs eventId = .ok (s', out)) :
    (s' = s ∧ out.settled = .superseded) ∨
    (out.settled = .completed ∧ ∃ F C plans outbox seq, Deciding s fleetId childId F C ∧
      ((s.plans.get fleetId = none ∧ plans = s.plans) ∨
        ∃ P newRev, s.plans.get fleetId = some P ∧ newRev.toNat = P.revision.toNat + 1 ∧
          plans = s.plans.insert fleetId
            { P with revision := newRev, schemaVersion := schemaVersion }) ∧
      appendOutbox s.outbox (outboxEvent .childDone eventId fleetId (some childId) none) =
        .ok (outbox, seq) ∧
      s' = { s with
        children := s.children.insert (childKey fleetId childId) (deniedChild reason nowMs C)
        plans, outbox }) := by
  obtain ⟨⟨⟩, hkeys, hok⟩ := bind_eq_ok.mp hok
  have hsafe := ensureKeySafe_eq_ok.mp hkeys fleetId (by simp)
  split_ifs at hok with hterm
  · cases hok
    exact .inl ⟨rfl, rfl⟩
  cases hC : s.child fleetId childId with
  | none =>
    rw [hC] at hok
    cases hok
    exact .inl ⟨rfl, rfl⟩
  | some C =>
    simp only [hC] at hok
    split_ifs at hok with hst
    · cases hok
      exact .inl ⟨rfl, rfl⟩
    -- The child is blocked and its fleet live; only the plan may be missing.
    obtain ⟨F, hd⟩ := Deciding.of_reads h hsafe (by simpa using hterm) hC (not_not.mp hst)
    obtain ⟨⟨plans, b⟩, hplans, hok⟩ := bind_eq_ok.mp hok
    obtain ⟨⟨outbox, seq⟩, ho, hok⟩ := bind_eq_ok.mp hok
    cases hok
    refine .inr ⟨rfl, F, C, plans, outbox, seq, hd, ?_, ho, rfl⟩
    rw [h.plan_eq] at hplans
    cases hP : s.plans.get fleetId with
    | none =>
      rw [hP] at hplans
      cases hplans
      exact .inl ⟨rfl, rfl⟩
    | some P =>
      simp only [hP] at hplans
      obtain ⟨newRev, hnew, hplans⟩ := bind_eq_ok.mp hplans
      cases hplans
      exact .inr ⟨P, newRev, rfl, checkedAdd_eq_some.mp (orError_eq_ok.mp hnew), rfl⟩

def denyLabel (fleetId : String) (l : Label) : Prop :=
  l = .events ∨ l = .editPlan fleetId ∨ l = .move fleetId .deny

theorem denyEscalation_steps {out : DenyEscalationOutcome}
    (hok : s.denyEscalation fleetId childId reason nowMs eventId = .ok (s', out)) :
    StepsIn Effect (denyLabel fleetId) s s' := by
  rcases denyEscalation_spec h hok with
    ⟨rfl, -⟩ | ⟨-, F, C, plans, outbox, seq, hd, hplans, -, rfl⟩
  · exact .refl _
  · have he := hd.deny h reason nowMs
    obtain rfl := hd.fleetId_eq
    have hstep : StepsIn Effect (denyLabel C.fleetId) s _ := .single (.inr (.inr rfl)) he
    rcases hplans with ⟨-, rfl⟩ | ⟨P, newRev, hP, hnew, rfl⟩
    · exact hstep.trans (.single (.inl rfl) (.events _ outbox s.decisionLog))
    · have hedit := editPlan_effect (h.effect he) P.tasks hd.fleet hd.live hP hnew rfl
      exact (hstep.trans (.single (.inr (.inl rfl)) hedit)).trans
        (.single (.inl rfl) (.events _ outbox s.decisionLog))

end

/-! ## Replanning -/

/-- The store while a replan is under way: the local tables, with the remaining reservation
written to the fleet's row. -/
def replanning (s : FleetKernelStore) (fleetId : String) (F : FleetRecord) (st : ReplanState) :
    FleetKernelStore :=
  { s with
    fleets := s.fleets.insert fleetId
      { F with budget := { F.budget with tokensReserved := st.tokensReserved } }
    children := st.children
    attempts := st.attempts }

section

variable (tasks : List PlanTask) (succeeded : List String) (generation nowMs : UInt64)
  {C : FleetChildRecord}

theorem interruptCurrent_idle (h : KernelInv s)
    (hC : s.children.get (childKey C.fleetId C.childId) = some C)
    (hidle : C.status.inFlight = false) (tokensReserved : UInt64) :
    interruptCurrent C.fleetId nowMs C s.attempts tokensReserved =
      .ok (s.attempts, tokensReserved, false) := by
  unfold interruptCurrent
  cases hcur : C.currentAttemptId with
  | none => rfl
  | some a =>
    obtain ⟨A, hA, -, hag⟩ := h.current _ C hC a hcur
    have hdec : decodeRow A = some A := decodeRow_eq_some.mpr ⟨(h.attemptRow _ A hA).2.2, rfl⟩
    simp only [hA, Option.bind_some, hdec, agrees_live_false hag hidle, Bool.false_eq_true,
      and_false, if_false]
    rfl

variable {F : FleetRecord}

theorem interruptCurrent_live (h : KernelInv s) {A : Attempt} {reserved : UInt64}
    (hl : KernelInv.LiveAttempt s F C A reserved) :
    interruptCurrent C.fleetId nowMs C s.attempts F.budget.tokensReserved =
      .ok (s.attempts.insert (attemptKey C.childId A.attemptId)
        { A with status := .interrupted, endedAtMs := some nowMs }, reserved, true) := by
  have hdec : decodeRow A = some A :=
    decodeRow_eq_some.mpr ⟨(h.attemptRow _ A hl.attempt).2.2, rfl⟩
  unfold interruptCurrent
  simp only [hl.current, hl.attempt, Option.bind_some, hdec, hl.fleetId_eq, hl.childId_eq, hl.live,
    and_self, if_true, hl.reserved, orError]
  rfl

/-- **One step of the loop restarts one child.** -/
theorem replanStep_effect (h : KernelInv s) (hF : s.fleets.get C.fleetId = some F)
    (hlive : fleetIsLive F = true) (hC : s.children.get (childKey C.fleetId C.childId) = some C) :
    ∃ st, replanStep C.fleetId tasks succeeded generation nowMs
        ⟨s.attempts, s.children, F.budget.tokensReserved⟩ C = .ok st ∧
      st.children = s.children.insert (childKey C.fleetId C.childId)
        (replanChild tasks succeeded generation nowMs C.status.inFlight C) ∧
      Effect (.move C.fleetId .restart) s (s.replanning C.fleetId F st) := by
  -- A child in flight loses its attempt, and its reservation is released.
  by_cases hfly : C.status.inFlight = true
  · obtain ⟨A, reserved, hl⟩ := h.inFlight_attempt hF hC hfly
    refine ⟨⟨s.attempts.insert (attemptKey C.childId A.attemptId)
        { A with status := .interrupted, endedAtMs := some nowMs },
      s.children.insert (childKey C.fleetId C.childId)
        (replanChild tasks succeeded generation nowMs true C), reserved⟩, ?_, ?_, ?_⟩
    · unfold replanStep
      rw [interruptCurrent_live nowMs h hl]
      rfl
    · rw [hfly]
    · have hst : C.status = .launching ∨ C.status = .running := by
        cases hst : C.status <;> simp_all [ChildStatus.inFlight]
      have he : Effect (.move C.fleetId .restart) s (s.setCell _ _
          (some { A with status := .interrupted, endedAtMs := some nowMs })) := .cell
        ⟨hF, hC, by rintro _ ⟨rfl⟩; exact ⟨hl.attempt, hl.fleetId_eq, hl.childId_eq⟩⟩ (by rintro ⟨⟩)
        (.restartLive tasks succeeded generation reserved nowMs hlive hst hl.current hl.live
          (checkedSub_eq_some.mp hl.reserved))
      simp only [setCell, replanChild_keeps] at he
      exact he
  · have hidle : C.status.inFlight = false := by simpa using hfly
    refine ⟨⟨s.attempts, s.children.insert (childKey C.fleetId C.childId)
        (replanChild tasks succeeded generation nowMs false C), F.budget.tokensReserved⟩,
          ?_, ?_, ?_⟩
    · unfold replanStep
      rw [interruptCurrent_idle nowMs h hC hidle]
      rfl
    · rw [hidle]
    · have hst : C.status ≠ .launching ∧ C.status ≠ .running := by
        revert hidle
        cases C.status <;> simp [ChildStatus.inFlight]
      have he : Effect (.move C.fleetId .restart) s (s.setCell _ _ none) := .cell
        ⟨hF, hC, by rintro _ ⟨⟩⟩ (by rintro ⟨⟩)
        (.restartIdle tasks succeeded generation nowMs hlive hst.1 hst.2)
      simp only [setCell, replanChild_keeps] at he
      exact he

/-- **The loop of a replan succeeds, and is a sequence of restarts.** The rows of the children still
to come are in place at every step. -/
theorem foldlM_replanStep {fleetId : String} {l : List FleetChildRecord}
    (hl : l.Pairwise fun C D => childKey C.fleetId C.childId ≠ childKey D.fleetId D.childId)
    {s : FleetKernelStore} (h : KernelInv s) (hF : s.fleets.get fleetId = some F)
    (hlive : fleetIsLive F = true)
    (hrows : ∀ C ∈ l, C.fleetId = fleetId ∧ s.children.get (childKey fleetId C.childId) = some C) :
    ∃ st, l.foldlM (replanStep fleetId tasks succeeded generation nowMs)
        ⟨s.attempts, s.children, F.budget.tokensReserved⟩ = .ok st ∧
      st.children = s.children.writeAll (fun C => childKey fleetId C.childId)
        (fun C => replanChild tasks succeeded generation nowMs C.status.inFlight C) l ∧
      StepsIn Effect (· = .move fleetId .restart) s (s.replanning fleetId F st) := by
  induction l generalizing s F with
  | nil =>
    refine ⟨_, rfl, rfl, ?_⟩
    rw [replanning, insert_eq_self hF]
    exact .refl s
  | cons C l ih =>
    obtain ⟨hC, hl⟩ := pairwise_cons.mp hl
    obtain ⟨rfl, hrow⟩ := hrows C mem_cons_self
    obtain ⟨st₁, hst₁, hch₁, he⟩ :=
      replanStep_effect tasks succeeded generation nowMs h hF hlive hrow
    have hF₁ : (s.replanning C.fleetId F st₁).fleets.get C.fleetId =
        some { F with budget := { F.budget with tokensReserved := st₁.tokensReserved } } :=
      get_insert_self ..
    obtain ⟨st, hst, hch, hsteps⟩ := ih hl (h.effect he) hF₁ hlive fun D hD => by
      obtain ⟨hf, hD'⟩ := hrows D (mem_cons_of_mem _ hD)
      refine ⟨hf, ?_⟩
      have hne := hC D hD
      rw [hf] at hne
      show st₁.children.get _ = _
      rw [hch₁, get_insert_of_ne _ _ hne.symm, hD']
    refine ⟨st, ?_, ?_, ?_⟩
    · rw [foldlM_cons, hst₁]
      exact hst
    · rw [hch]
      show st₁.children.writeAll _ _ l = _
      rw [hch₁]
      rfl
    · refine StepsIn.trans (.single rfl he) ?_
      rwa [replanning, replanning, insert_insert] at hsteps

end

def replanLabel (fleetId : String) (l : Label) : Prop :=
  l = .move fleetId .restart ∨ l = .newChild fleetId ∨ l = .newPlan fleetId ∨ l = .bump fleetId

/-- What a replan that takes effect did to the rows of its fleet. -/
structure Replanned (s s' : FleetKernelStore) (fleetId : String) (F : FleetRecord)
    (P newPlan : DurablePlan) (newRev newGen nowMs : UInt64) (succeeded : List String) : Prop where
  safe : keyComponentIsSafe fleetId = true
  fleet : s.fleets.get fleetId = some F
  live : fleetIsLive F = true
  plan : s.plans.get fleetId = some P
  revision : newRev.toNat = P.revision.toNat + 1
  /-- No surviving succeeded or failed child changes its dependencies. -/
  frozen : ∀ t ∈ newPlan.tasks, ∀ C, s.children.get (childKey fleetId t.taskId) = some C →
    C.status = .succeeded ∨ C.status = .failed → C.deps = t.deps
  /-- The succeeded children that the new plan keeps. -/
  succeeded_iff : ∀ d, d ∈ succeeded ↔ d ∈ newPlan.tasks.map (·.taskId) ∧
    ∃ D, s.children.get (childKey fleetId d) = some D ∧ D.status = .succeeded
  plan' : s'.plans.get fleetId =
    some { newPlan with schemaVersion := schemaVersion, fleetId, revision := newRev }
  /-- The rows of the existing children. -/
  kept : ∀ c C, s.children.get (childKey fleetId c) = some C →
    s'.children.get (childKey fleetId c) =
      some (replanChild newPlan.tasks succeeded newGen nowMs C.status.inFlight C)
  /-- The rows of new children. -/
  added : ∀ c, s.children.get (childKey fleetId c) = none →
    ∀ C', s'.children.get (childKey fleetId c) = some C' → ∃ t ∈ newPlan.tasks, t.taskId = c ∧
      C' = newChild fleetId c (readiness succeeded t.deps) t.deps newGen nowMs
  /-- Every task of the new plan has a child. -/
  covered : ∀ t ∈ newPlan.tasks, ∃ C', s'.children.get (childKey fleetId t.taskId) = some C'

abbrev childrenOf (s : FleetKernelStore) (fleetId : String) : List FleetChildRecord :=
  s.children.values.filter fun C => C.fleetId = fleetId

abbrev newTasks (s : FleetKernelStore) (fleetId : String) (tasks : List PlanTask) : List PlanTask :=
  tasks.filter fun t => !((s.childrenOf fleetId).map (·.childId)).contains t.taskId

theorem mem_filter_children (h : KernelInv s) {fleetId : String} {C : FleetChildRecord} :
    C ∈ s.childrenOf fleetId ↔
      C.fleetId = fleetId ∧ s.children.get (childKey fleetId C.childId) = some C := by
  rw [childrenOf, ← h.fleetChildren_eq]
  exact mem_fleetChildren h

theorem deps_eq_of_terminalDepChange (h : KernelInv s) {fleetId : String}
    (hsafe : keyComponentIsSafe fleetId = true) {tasks : List PlanTask}
    (hn : terminalDepChange (s.childrenOf fleetId) tasks = none)
    {t : PlanTask} (ht : t ∈ tasks) {C : FleetChildRecord}
    (hC : s.children.get (childKey fleetId t.taskId) = some C)
    (hst : C.status = .succeeded ∨ C.status = .failed) : C.deps = t.deps := by
  have hcheck := find?_eq_none.mp hn t ht
  obtain ⟨hf, hc⟩ := h.child_ids hsafe hC
  have hmem := (mem_filter_children h).mpr ⟨hf, by rw [hc, hC]⟩
  cases hfind : (s.childrenOf fleetId).find? (·.childId = t.taskId) with
  | none => exact absurd (by simpa using hc) (find?_eq_none.mp hfind C hmem)
  | some D =>
    -- the child found is the one under the task's key
    obtain ⟨-, hD⟩ := (mem_filter_children h).mp (mem_of_find?_eq_some hfind)
    have hid : D.childId = t.taskId := by simpa using find?_some hfind
    rw [hid, hC] at hD
    cases hD
    by_contra hne
    rw [hfind] at hcheck
    rcases hst with hst | hst <;> simp [hne, hst] at hcheck

theorem foldl_insertNewTask (fleetId : String) (succeeded taken : List String)
    (generation nowMs : UInt64) (tasks : List PlanTask) (children : Table String FleetChildRecord) :
    tasks.foldl (insertNewTask fleetId succeeded taken generation nowMs) children =
      children.writeAll (fun t => childKey fleetId t.taskId)
        (fun t => newChild fleetId t.taskId (readiness succeeded t.deps) t.deps generation nowMs)
        (tasks.filter fun t => !taken.contains t.taskId) := by
  rw [writeAll, foldl_filter]
  congr 1
  funext children t
  rw [insertNewTask]
  cases taken.contains t.taskId <;> rfl

section

variable {fleetId : String} (tasks : List PlanTask) (succeeded : List String)
  (newGen nowMs : UInt64)

/-- The children table a replan commits. -/
def replannedChildren (s : FleetKernelStore) (fleetId : String) (tasks : List PlanTask)
    (succeeded : List String) (newGen nowMs : UInt64) : Table String FleetChildRecord :=
  let existing := s.children.values.filter fun C => C.fleetId = fleetId
  (s.children.writeAll (fun C => childKey fleetId C.childId)
    (fun C => replanChild tasks succeeded newGen nowMs C.status.inFlight C) existing).writeAll
    (fun t => childKey fleetId t.taskId)
    (fun t => newChild fleetId t.taskId (readiness succeeded t.deps) t.deps newGen nowMs)
    (tasks.filter fun t => !(existing.map (·.childId)).contains t.taskId)

variable (h : KernelInv s)
include h

/-- The rows that are rewritten for the existing children have no new keys. -/
theorem get_restarted_of_none (f : FleetChildRecord → FleetChildRecord) {k : String}
    (hk : s.children.get k = none) :
    (s.children.writeAll (fun C => childKey fleetId C.childId) f (s.childrenOf fleetId)).get k =
      none := by
  rcases get_writeAll (fun C : FleetChildRecord => childKey fleetId C.childId) f _ _ k with
    ⟨C, hC, rfl, -⟩ | ⟨-, hrow⟩
  · rw [((mem_filter_children h).mp hC).2] at hk
    cases hk
  · exact hrow.trans hk

section

variable (hsafe : keyComponentIsSafe fleetId = true)
include hsafe

theorem newTask_iff (c : String) :
    ((s.childrenOf fleetId).map (·.childId)).contains c = false ↔
      s.children.get (childKey fleetId c) = none := by
  rw [← Bool.not_eq_true, contains_iff_mem, mem_map]
  constructor
  · intro hn
    refine Option.eq_none_iff_forall_not_mem.mpr fun C hC => ?_
    obtain ⟨hf, rfl⟩ := h.child_ids hsafe hC
    exact hn ⟨C, (mem_filter_children h).mpr ⟨hf, hC⟩, rfl⟩
  · rintro hn ⟨C, hC, rfl⟩
    rw [((mem_filter_children h).mp hC).2] at hn
    cases hn

theorem get_replannedChildren_old {c : String} {C : FleetChildRecord}
    (hC : s.children.get (childKey fleetId c) = some C) :
    (s.replannedChildren fleetId tasks succeeded newGen nowMs).get (childKey fleetId c) =
      some (replanChild tasks succeeded newGen nowMs C.status.inFlight C) := by
  obtain ⟨hf, rfl⟩ := h.child_ids hsafe hC
  have hpair : (s.childrenOf fleetId).Pairwise fun C D =>
      childKey fleetId C.childId ≠ childKey fleetId D.childId := by
    refine (h.children_pairwise.filter _).imp_of_mem fun hC hD hne => ?_
    rwa [((mem_filter_children h).mp hC).1, ((mem_filter_children h).mp hD).1] at hne
  rcases get_writeAll (fun t : PlanTask => childKey fleetId t.taskId) _ _ (s.newTasks fleetId tasks)
    (childKey fleetId C.childId) with ⟨t, ht, hk, -⟩ | ⟨-, hrow⟩
  · -- a new task does not have the key of a child that was there
    have hn := (newTask_iff h hsafe t.taskId).mp (by simpa using (mem_filter.mp ht).2)
    rw [hk, hC] at hn
    cases hn
  · exact hrow.trans
      (get_writeAll_of_mem _ _ hpair ((mem_filter_children h).mpr ⟨hf, hC⟩))

theorem get_replannedChildren_new {c : String} (hC : s.children.get (childKey fleetId c) = none) :
    (∃ t ∈ tasks, t.taskId = c ∧
      (s.replannedChildren fleetId tasks succeeded newGen nowMs).get (childKey fleetId c) =
        some (newChild fleetId c (readiness succeeded t.deps) t.deps newGen nowMs)) ∨
    ((∀ t ∈ tasks, t.taskId ≠ c) ∧
      (s.replannedChildren fleetId tasks succeeded newGen nowMs).get (childKey fleetId c) =
        none) := by
  rcases get_writeAll (fun t : PlanTask => childKey fleetId t.taskId) _ _ _
    (childKey fleetId c) with ⟨t, ht, hk, hrow⟩ | ⟨hk, hrow⟩
  · obtain rfl := ((childKey_inj hsafe hsafe).mp hk).2
    exact .inl ⟨t, (mem_filter.mp ht).1, rfl, hrow⟩
  · refine .inr ⟨?_, hrow.trans ?_⟩
    · rintro t ht rfl
      refine hk t (mem_filter.mpr ⟨ht, ?_⟩) rfl
      simpa using (newTask_iff h hsafe t.taskId).mpr hC
    · exact get_restarted_of_none h _ hC

theorem replannedChildren_idle {c : String} {C' : FleetChildRecord}
    (hC' : (s.replannedChildren fleetId tasks succeeded newGen nowMs).get (childKey fleetId c) =
      some C') : C'.status.inFlight = false := by
  cases hC : s.children.get (childKey fleetId c) with
  | some C =>
    rw [get_replannedChildren_old tasks succeeded newGen nowMs h hsafe hC] at hC'
    cases hC'
    rcases replanChild_cases tasks succeeded newGen nowMs C.status.inFlight C with
      ⟨-, hst, -⟩ | ⟨hst | hst | hst, -⟩ <;> rw [hst] <;> rfl
  | none =>
    rcases get_replannedChildren_new tasks succeeded newGen nowMs h hsafe hC with
      ⟨t, -, -, hrow⟩ | ⟨-, hrow⟩
    · rw [hrow] at hC'
      cases hC'
      rcases readiness_cases succeeded t.deps with hst | hst <;> rw [newChild, hst] <;> rfl
    · rw [hrow] at hC'
      cases hC'

/-- The succeeded children that the new plan keeps. -/
def replanSucceeded (s : FleetKernelStore) (fleetId : String) (tasks : List PlanTask) :
    List String :=
  ((s.children.values.filter fun C => C.fleetId = fleetId).filter fun c =>
    c.status = .succeeded && (tasks.map (·.taskId)).contains c.childId).map (·.childId)

theorem mem_replanSucceeded {d : String} :
    d ∈ s.replanSucceeded fleetId tasks ↔ d ∈ tasks.map (·.taskId) ∧
      ∃ D, s.children.get (childKey fleetId d) = some D ∧ D.status = .succeeded := by
  unfold replanSucceeded
  rw [mem_map]
  constructor
  · rintro ⟨D, hD, rfl⟩
    obtain ⟨hmem, hst⟩ := mem_filter.mp hD
    rw [Bool.and_eq_true, contains_iff_mem] at hst
    exact ⟨hst.2, D, ((mem_filter_children h).mp hmem).2, of_decide_eq_true hst.1⟩
  · rintro ⟨hmem, D, hD, hst⟩
    obtain ⟨hf, rfl⟩ := h.child_ids hsafe hD
    refine ⟨D, mem_filter.mpr ⟨(mem_filter_children h).mpr ⟨hf, hD⟩, ?_⟩, rfl⟩
    rw [Bool.and_eq_true, contains_iff_mem]
    exact ⟨decide_eq_true hst, hmem⟩

end

theorem bump_effect {F : FleetRecord} (hF : s.fleets.get fleetId = some F)
    (hlive : fleetIsLive F = true)
    (hidle : ∀ c C, s.children.get (childKey fleetId c) = some C → C.status.inFlight = false)
    (generation nowMs : UInt64) :
    Effect (.bump fleetId) s { s with
      fleets := s.fleets.insert fleetId { F with generation, updatedAtMs := nowMs } } := by
  obtain rfl := (h.fleetRow _ F hF).1
  refine .bump generation nowMs hF hlive fun k A hA hf => ?_
  by_contra hl
  -- a live attempt would put its child in flight
  obtain ⟨-, C, hC, hcur⟩ := h.live k A hA (by simpa using hl)
  obtain ⟨A₀, hA₀, -, hag⟩ := h.current _ C hC _ hcur
  rw [hf] at hC
  have hid := (h.child_ids (h.fleetRow _ F hF).2.1 hC).2
  rw [hid, ← (h.attemptRow k A hA).1, hA] at hA₀
  cases hA₀
  rw [agrees_live_false hag (hidle _ C hC)] at hl
  exact hl rfl

/-- **A replan commits.** Its loop succeeds, and what it writes is a sequence of effects. -/
theorem replan_commit {F : FleetRecord} {P newPlan : DurablePlan} {newRev : UInt64}
    (hsafe : keyComponentIsSafe fleetId = true)
    (htasks : ∀ t ∈ newPlan.tasks, keyComponentIsSafe t.taskId = true)
    (hF : s.fleets.get fleetId = some F) (hlive : fleetIsLive F = true)
    (hP : s.plans.get fleetId = some P) (hrev : newRev.toNat = P.revision.toNat + 1) :
    ∃ st, (s.childrenOf fleetId).foldlM
        (replanStep fleetId newPlan.tasks succeeded newGen nowMs)
        ⟨s.attempts, s.children, F.budget.tokensReserved⟩ = .ok st ∧
      newPlan.tasks.foldl (insertNewTask fleetId succeeded
        ((s.childrenOf fleetId).map (·.childId)) newGen nowMs)
        st.children = s.replannedChildren fleetId newPlan.tasks succeeded newGen nowMs ∧
      StepsIn Effect (replanLabel fleetId) s { s with
        fleets := s.fleets.insert fleetId
          { F with
            budget := { F.budget with tokensReserved := st.tokensReserved },
            generation := newGen, updatedAtMs := nowMs }
        children := s.replannedChildren fleetId newPlan.tasks succeeded newGen nowMs
        attempts := st.attempts
        plans := s.plans.insert fleetId
          { newPlan with schemaVersion := schemaVersion, fleetId, revision := newRev } } := by
  obtain ⟨st, hst, hch, hrestart⟩ := foldlM_replanStep newPlan.tasks succeeded newGen nowMs
    (h.children_pairwise.filter _) h hF hlive fun C hC => (mem_filter_children h).mp hC
  refine ⟨st, hst, ?_, ?_⟩
  · rw [foldl_insertNewTask, hch]
    rfl
  -- the fleet's row while the replan is under way
  let F₁ : FleetRecord := { F with budget := { F.budget with tokensReserved := st.tokensReserved } }
  have hF₁ : (s.replanning fleetId F st).fleets.get fleetId = some F₁ := get_insert_self ..
  have hnew := writeAll_newChild_steps (F := F₁) hlive
    (fun t => (readiness_cases succeeded t.deps).symm) newGen nowMs
    (l := s.newTasks fleetId newPlan.tasks)
    (fun t ht => htasks t (mem_filter.mp ht).1) hF₁ fun t ht C₀ hC₀ => by
      -- the key of a new task was free and stayed so
      have hn := (newTask_iff h hsafe t.taskId).mp (by simpa using (mem_filter.mp ht).2)
      have hC₀ : st.children.get (childKey fleetId t.taskId) = some C₀ := hC₀
      rw [hch, get_restarted_of_none h _ hn] at hC₀
      cases hC₀
  have hchildren : (s.replanning fleetId F st).children.writeAll
      (fun t => childKey fleetId t.taskId)
      (fun t => newChild fleetId t.taskId (readiness succeeded t.deps) t.deps newGen nowMs)
      (s.newTasks fleetId newPlan.tasks) = s.replannedChildren fleetId newPlan.tasks succeeded
        newGen nowMs := by
    show st.children.writeAll _ _ _ = _
    rw [hch]
    rfl
  rw [hchildren] at hnew
  -- the store with the children, then with the plan, then in the next generation
  let t₁ : FleetKernelStore :=
    { s.replanning fleetId F st with
      children := s.replannedChildren fleetId newPlan.tasks succeeded newGen nowMs }
  let P' : DurablePlan :=
    { newPlan with schemaVersion := schemaVersion, fleetId, revision := newRev }
  have hsteps₁ : StepsIn Effect (replanLabel fleetId) s t₁ :=
    StepsIn.trans (hrestart.mono fun l hl => .inl hl) (hnew.mono fun l hl => .inr (.inl hl))
  have hplan : Effect (.newPlan fleetId) t₁ { t₁ with plans := s.plans.insert fleetId P' } :=
    .newPlan (F := F₁) (P := P') hF₁ hlive (UInt32.le_refl _) fun P₀ hP₀ => by
      cases hP.symm.trans hP₀
      show P.revision.toNat < newRev.toNat
      omega
  have hsteps₂ := hsteps₁.trans (.single (.inr (.inr (.inl rfl))) hplan)
  have hbump := bump_effect (h.steps hsteps₂) hF₁ hlive
    (fun c C hC => replannedChildren_idle _ _ _ _ h hsafe hC) newGen nowMs
  have hsteps₃ := hsteps₂.trans (.single (.inr (.inr (.inr rfl))) hbump)
  have hfleets : (s.replanning fleetId F st).fleets.insert fleetId
      { F₁ with generation := newGen, updatedAtMs := nowMs } =
        s.fleets.insert fleetId { F₁ with generation := newGen, updatedAtMs := nowMs } :=
    insert_insert ..
  simp only [t₁, hfleets] at hsteps₃
  exact hsteps₃

end

/-- **A replan that takes effect, row by row and as a sequence of effects.** -/
theorem replan_spec (h : KernelInv s) {fleetId : String} {expectedRevision nowMs : UInt64}
    {newPlan : DurablePlan} {out : PlanMutateOutcome}
    (hok : s.replan fleetId expectedRevision newPlan nowMs = .ok (s', out)) :
    (s' = s ∧ ∀ r, out ≠ .mutated r) ∨
    ∃ F P newRev newGen succeeded, out = .mutated newRev ∧ P.revision = expectedRevision ∧
      Replanned s s' fleetId F P newPlan newRev newGen nowMs succeeded ∧
      StepsIn Effect (replanLabel fleetId) s s' := by
  -- Every check that fails replies without a commit.
  obtain ⟨⟨⟩, hkey, hok⟩ := bind_eq_ok.mp hok
  have hsafe := ensureKeySafe_eq_ok.mp hkey fleetId (mem_singleton.mpr rfl)
  obtain ⟨⟨⟩, hkeys, hok⟩ := bind_eq_ok.mp hok
  have htasks : ∀ t ∈ newPlan.tasks, keyComponentIsSafe t.taskId = true := fun t ht =>
    ensureKeySafe_eq_ok.mp hkeys _ (mem_flatMap.mpr ⟨t, ht, mem_cons_self⟩)
  obtain ⟨P, hP, hok⟩ := readRow_eq_ok hok
  split_ifs at hok with hpid hrev
  · cases hok
    exact .inl ⟨rfl, nofun⟩
  obtain rfl := not_not.mp hrev
  obtain ⟨F, hF, hok⟩ := readRow_eq_ok hok
  split_ifs at hok with hfid hterm
  · cases hok
    exact .inl ⟨rfl, nofun⟩
  obtain ⟨newGen, -, hok⟩ := bind_eq_ok.mp hok
  obtain ⟨newRev, hnew, hok⟩ := bind_eq_ok.mp hok
  simp only [h.prefixChildren_eq hsafe, h.undecodableIds_eq hsafe, append_nil] at hok
  split at hok
  · cases hok
    exact .inl ⟨rfl, nofun⟩
  rename_i hfrozen
  -- From here on the replan takes effect: the loop succeeds, and its table is committed.
  have hlive : fleetIsLive F = true := by simpa using hterm
  have hnew := checkedAdd_eq_some.mp (orError_eq_ok.mp hnew)
  obtain ⟨st, hst, hchildren, hsteps⟩ :=
    replan_commit (s.replanSucceeded fleetId newPlan.tasks) newGen nowMs h hsafe htasks hF hlive hP
      hnew
  obtain ⟨st', hst', hok⟩ := bind_eq_ok.mp hok
  cases hst.symm.trans hst'
  unfold replanSucceeded at hchildren
  rw [hchildren] at hok
  cases hok
  refine .inr ⟨F, P, newRev, newGen, s.replanSucceeded fleetId newPlan.tasks, rfl, rfl, ?_, hsteps⟩
  exact
    { safe := hsafe
      fleet := hF
      live := hlive
      plan := hP
      revision := hnew
      frozen := fun t ht C hC => deps_eq_of_terminalDepChange h hsafe hfrozen ht hC
      succeeded_iff := fun d => mem_replanSucceeded _ h hsafe
      plan' := get_insert_self ..
      kept := fun c C hC => get_replannedChildren_old _ _ _ _ h hsafe hC
      added := fun c hC C' hC' => by
        rcases get_replannedChildren_new _ _ _ _ h hsafe hC with ⟨t, ht, hid, hrow⟩ | ⟨-, hrow⟩
        · cases hrow.symm.trans hC'
          exact ⟨t, ht, hid, rfl⟩
        · cases hrow.symm.trans hC'
      covered := fun t ht => by
        cases hC : s.children.get (childKey fleetId t.taskId) with
        | some C => exact ⟨_, get_replannedChildren_old _ _ _ _ h hsafe hC⟩
        | none =>
          rcases get_replannedChildren_new _ _ _ _ h hsafe hC with ⟨u, -, -, hrow⟩ | ⟨hn, -⟩
          · exact ⟨_, hrow⟩
          · exact absurd rfl (hn t ht) }

end FleetKernelStore

end Octos.Fleet
