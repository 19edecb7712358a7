import Octos.Fleet.Invariant

/-!
# Creation, readiness and cancellation as effects

What the operations that create rows, promote children and cancel fleets do, as sequences of
effects. The readiness sweep is a fold over the fleet's children: each promotion moves one child,
and leaves the rows of the children still to come in place.
-/

namespace Octos.Fleet.FleetKernelStore

open List Table

variable {s s' : FleetKernelStore} {fleetId : String} {nowMs : UInt64}

/-! ## Outbox and decision log -/

variable {seq : UInt64}

theorem appendEvent_steps {event : OutboxEvent}
    (hok : s.appendEvent event = .ok (s', seq)) : StepsIn Effect (· = .events) s s' := by
  obtain ⟨_, -, hok⟩ := bind_eq_ok.mp hok
  obtain ⟨_, -, hok⟩ := bind_eq_ok.mp hok
  obtain ⟨_, -, hok⟩ := bind_eq_ok.mp hok
  obtain ⟨⟨outbox, seq⟩, -, hok⟩ := bind_eq_ok.mp hok
  cases hok
  exact .single rfl (.events s outbox s.decisionLog)

theorem claimNext_steps {consumer token : String} {ttlMs : UInt64}
    {out : Option OutboxEvent} (hok : s.claimNext consumer nowMs ttlMs token = .ok (s', out)) :
    StepsIn Effect (· = .events) s s' := by
  unfold claimNext at hok
  split at hok
  · obtain ⟨_, -, hok⟩ := bind_eq_ok.mp hok
    cases hok
    exact .single rfl (.events s _ s.decisionLog)
  · cases hok
    exact .refl s

theorem ack_steps {sequence : UInt64} {consumer claimToken : String} {out : AckOutcome}
    (hok : s.ack sequence consumer claimToken = .ok (s', out)) :
    StepsIn Effect (· = .events) s s' := by
  obtain ⟨_, -, hok⟩ := bind_eq_ok.mp hok
  obtain ⟨_, -, hok⟩ := bind_eq_ok.mp hok
  split_ifs at hok
  · cases hok
    exact .single rfl (.events s _ s.decisionLog)
  · cases hok
    exact .refl s

theorem appendDecision_steps {actor note : String} {kind : DecisionKind}
    (hok : s.appendDecision fleetId actor kind note nowMs = .ok (s', seq)) :
    StepsIn Effect (· = .events) s s' := by
  obtain ⟨_, -, hok⟩ := bind_eq_ok.mp hok
  obtain ⟨_, -, hok⟩ := bind_eq_ok.mp hok
  cases hok
  exact .single rfl (.events s s.outbox _)

/-! ## Creation -/

theorem genesisStatus_cases (deps : List String) :
    genesisStatus deps = .planned ∨ genesisStatus deps = .ready := by
  unfold genesisStatus
  split_ifs
  · exact .inr rfl
  · exact .inl rfl

variable {u : Unit}

theorem createFleet_steps {controllerSessionKey profileId : String}
    {controllerWorkspaceRoot : Option String} {tokenBudget : UInt64} {hard : Bool}
    (hok : s.createFleet fleetId controllerSessionKey controllerWorkspaceRoot profileId tokenBudget
      hard nowMs = .ok (s', u)) :
    StepsIn Effect (· = .newFleet fleetId) s s' := by
  obtain ⟨⟨⟩, hsafe, hok⟩ := bind_eq_ok.mp hok
  split at hok
  · cases hok
  · cases hok
    refine .single rfl (.newFleet (F := newFleet ..) ?_ ?_ (UInt32.le_refl _) rfl rfl)
    · assumption
    · exact ensureKeySafe_eq_ok.mp hsafe _ (mem_singleton.mpr rfl)

theorem createPlan_steps {plan : DurablePlan} {out : PlanMutateOutcome}
    (hok : s.createPlan plan = .ok (s', out)) :
    StepsIn Effect (· = .newPlan plan.fleetId) s s' := by
  obtain ⟨_, -, hok⟩ := bind_eq_ok.mp hok
  obtain ⟨_, -, hok⟩ := bind_eq_ok.mp hok
  obtain ⟨F, hF, hok⟩ := readRow_eq_ok hok
  split_ifs at hok with hid hlive
  · cases hok
    exact .refl s
  · split at hok
    · cases hok
    · rename_i hnone
      cases hok
      refine .single rfl (.newPlan (P := { plan with schemaVersion := schemaVersion })
        hF (by simpa using hlive) (UInt32.le_refl _) fun P₀ hP₀ => ?_)
      exact absurd (hnone.symm.trans hP₀) nofun

variable {childId : String}

theorem addChild_steps {deps : List String}
    (hok : s.addChild fleetId childId deps nowMs = .ok (s', u)) :
    StepsIn Effect (· = .newChild fleetId) s s' := by
  obtain ⟨⟨⟩, hsafe, hok⟩ := bind_eq_ok.mp hok
  obtain ⟨_, -, hok⟩ := bind_eq_ok.mp hok
  obtain ⟨F, hF, hok⟩ := readRow_eq_ok hok
  split_ifs at hok with hlive
  split at hok
  · cases hok
  · rename_i hnone
    cases hok
    refine .single rfl
      (.newChild (C := newChild ..) hF (by simpa using hlive) ?_ (UInt32.le_refl _) ?_
      rfl rfl rfl (genesisStatus_cases deps))
    · exact ensureKeySafe_eq_ok.mp hsafe childId (by simp)
    · intro C₀ hC₀
      exact absurd (hnone.symm.trans hC₀) nofun

variable {F : FleetRecord}

/-- Fresh children of a live fleet are written one after the other. -/
theorem writeAll_newChild_steps (hlive : fleetIsLive F = true)
    {status : PlanTask → ChildStatus} (hstatus : ∀ t, status t = .planned ∨ status t = .ready)
    (generation nowMs : UInt64) {l : List PlanTask}
    (hsafe : ∀ t ∈ l, keyComponentIsSafe t.taskId = true) {s : FleetKernelStore}
    (hF : s.fleets.get fleetId = some F)
    (hold : ∀ t ∈ l, ∀ C₀, s.children.get (childKey fleetId t.taskId) = some C₀ →
      C₀.currentAttemptId = none ∧ C₀.tokensCommitted = 0) :
    StepsIn Effect (· = .newChild fleetId) s { s with
      children := s.children.writeAll (fun t => childKey fleetId t.taskId)
        (fun t => newChild fleetId t.taskId (status t) t.deps generation nowMs) l } := by
  induction l generalizing s with
  | nil => exact .refl s
  | cons t l ih =>
    have he : Effect (.newChild fleetId) s _ := .newChild
      (C := newChild fleetId t.taskId (status t) t.deps generation nowMs) hF hlive
      (hsafe t mem_cons_self) (UInt32.le_refl _) (hold t mem_cons_self) rfl rfl rfl (hstatus t)
    refine StepsIn.trans (.single rfl he) ?_
    refine ih (fun t ht => hsafe t (mem_cons_of_mem _ ht)) hF fun u hu C₀ hC₀ => ?_
    -- a second task of the same id meets the fresh row of the first
    rw [get_insert] at hC₀
    split_ifs at hC₀
    · cases hC₀
      exact ⟨rfl, rfl⟩
    · exact hold u (mem_cons_of_mem _ hu) C₀ hC₀

/-- The children of a genesis are written under keys that were free. -/
theorem foldlM_insertGenesisChild_eq_ok {tasks : List PlanTask}
    {children children' : Table String FleetChildRecord}
    (hok : tasks.foldlM (insertGenesisChild fleetId nowMs) children = .ok children') :
    children' = children.writeAll (fun t => childKey fleetId t.taskId)
        (fun t => newChild fleetId t.taskId (genesisStatus t.deps) t.deps 0 nowMs) tasks ∧
      tasks.Pairwise (fun t u => childKey fleetId t.taskId ≠ childKey fleetId u.taskId) ∧
      ∀ t ∈ tasks, children.get (childKey fleetId t.taskId) = none := by
  induction tasks generalizing children with
  | nil =>
    cases hok
    exact ⟨rfl, .nil, nofun⟩
  | cons t tasks ih =>
    obtain ⟨children₁, h₁, hok⟩ := bind_eq_ok.mp hok
    unfold insertGenesisChild at h₁
    split at h₁
    · cases h₁
    rename_i hnone
    cases h₁
    obtain ⟨rfl, hpair, hfree⟩ := ih hok
    -- a key that is free with the new row in place is another one, and was free before
    have hrest : ∀ u ∈ tasks, childKey fleetId t.taskId ≠ childKey fleetId u.taskId ∧
        children.get (childKey fleetId u.taskId) = none := by
      intro u hu
      have hget := hfree u hu
      rw [get_insert] at hget
      split_ifs at hget with hk
      exact ⟨Ne.symm hk, hget⟩
    exact ⟨rfl, pairwise_cons.mpr ⟨fun u hu => (hrest u hu).1, hpair⟩,
      forall_mem_cons.mpr ⟨hnone, fun u hu => (hrest u hu).2⟩⟩

def genesisLabel (fleetId : String) (l : Label) : Prop :=
  l = .newFleet fleetId ∨ l = .newChild fleetId ∨ l = .newPlan fleetId

section

variable {controllerSessionKey profileId : String} {controllerWorkspaceRoot : Option String}
  {controllerWorkspaceHasRuntimeHint : Option Bool} {tokenBudget : UInt64} {hard : Bool}
  {plan : DurablePlan} {u : Unit}
  (hok : s.createFleetWithPlan controllerSessionKey controllerWorkspaceRoot
    controllerWorkspaceHasRuntimeHint profileId tokenBudget hard plan nowMs = .ok (s', u))
include hok

/-- What a genesis found and wrote. -/
theorem createFleetWithPlan_eq_ok :
    keyComponentIsSafe plan.fleetId = true ∧
      (∀ t ∈ plan.tasks, keyComponentIsSafe t.taskId = true) ∧
    s.fleets.get plan.fleetId = none ∧ s.plans.get plan.fleetId = none ∧
    ∃ children, plan.tasks.foldlM (insertGenesisChild plan.fleetId nowMs) s.children =
      .ok children ∧
      s' = { s with
        fleets := s.fleets.insert plan.fleetId (newFleet plan.fleetId controllerSessionKey
          controllerWorkspaceRoot controllerWorkspaceHasRuntimeHint profileId tokenBudget
            hard nowMs)
        children
        plans := s.plans.insert plan.fleetId { plan with schemaVersion := schemaVersion } } := by
  obtain ⟨⟨⟩, hsafe, hok⟩ := bind_eq_ok.mp hok
  obtain ⟨⟨⟩, hsafeT, hok⟩ := bind_eq_ok.mp hok
  refine ⟨ensureKeySafe_eq_ok.mp hsafe _ (mem_singleton.mpr rfl), fun t ht =>
    ensureKeySafe_eq_ok.mp hsafeT _ (mem_flatMap.mpr ⟨t, ht, mem_cons_self⟩), ?_⟩
  split at hok
  · cases hok
  · cases hok
  · rename_i hF hP
    obtain ⟨children, hchildren, hok⟩ := bind_eq_ok.mp hok
    cases hok
    exact ⟨hF, hP, children, hchildren, rfl⟩

theorem createFleetWithPlan_steps : StepsIn Effect (genesisLabel plan.fleetId) s s' := by
  obtain ⟨hsafe, htasks, hF, hP, children, hchildren, rfl⟩ := createFleetWithPlan_eq_ok hok
  let F := newFleet plan.fleetId controllerSessionKey controllerWorkspaceRoot
    controllerWorkspaceHasRuntimeHint profileId tokenBudget hard nowMs
  have hnew : Effect (.newFleet plan.fleetId) s
      { s with fleets := s.fleets.insert plan.fleetId F } :=
    .newFleet (F := F) hF hsafe (UInt32.le_refl _) rfl rfl
  obtain ⟨rfl, -, hfree⟩ := foldlM_insertGenesisChild_eq_ok hchildren
  have hchild :=
    writeAll_newChild_steps (F := F) rfl (fun t => genesisStatus_cases t.deps) 0 nowMs htasks
    (s := { s with fleets := s.fleets.insert plan.fleetId F }) (get_insert_self ..)
    fun t ht C₀ hC₀ => absurd ((hfree t ht).symm.trans hC₀) nofun
  have hfleet : StepsIn Effect (genesisLabel plan.fleetId) s _ := .single (.inl rfl) hnew
  have hchildren : StepsIn Effect (genesisLabel plan.fleetId) _ _ :=
    hchild.mono fun l hl => .inr (.inl hl)
  refine (hfleet.trans hchildren).trans (.single (.inr (.inr rfl)) ?_)
  exact .newPlan (P := { plan with schemaVersion := schemaVersion })
    (get_insert_self ..) (F := F) rfl (UInt32.le_refl _)
    fun P₀ hP₀ => absurd (hP.symm.trans hP₀) nofun

/-- **A genesis writes the plan and exactly one fresh child per task.** -/
theorem createFleetWithPlan_spec (h : KernelInv s) :
    s'.plans.get plan.fleetId = some { plan with schemaVersion := schemaVersion } ∧
    (∀ t ∈ plan.tasks, s'.children.get (childKey plan.fleetId t.taskId) =
      some (newChild plan.fleetId t.taskId (genesisStatus t.deps) t.deps 0 nowMs)) ∧
    ∀ c C, s'.children.get (childKey plan.fleetId c) = some C → ∃ t ∈ plan.tasks, t.taskId = c ∧
      C = newChild plan.fleetId t.taskId (genesisStatus t.deps) t.deps 0 nowMs := by
  obtain ⟨hsafe, -, hF, -, children, hchildren, rfl⟩ := createFleetWithPlan_eq_ok hok
  obtain ⟨rfl, hpair, -⟩ := foldlM_insertGenesisChild_eq_ok hchildren
  refine ⟨get_insert_self .., fun t ht => get_writeAll_of_mem _ _ hpair ht, ?_⟩
  intro c C hC
  rcases get_writeAll (fun t : PlanTask => childKey plan.fleetId t.taskId) _ s.children _
    (childKey plan.fleetId c) with ⟨t, ht, hk, hrow⟩ | ⟨-, hrow⟩
  · cases hrow.symm.trans hC
    exact ⟨t, ht, ((childKey_inj hsafe hsafe).mp hk).2, rfl⟩
  · -- a fleet without a row has no children
    have hold := hrow.symm.trans hC
    exact absurd (h.child_ids hsafe hold).1 (h.not_child_of_no_fleet hF hold)

end

/-! ## Cancellation -/

variable {b : Bool}

theorem cancelFleet_steps (hok : s.cancelFleet fleetId nowMs = .ok (s', b)) :
    StepsIn Effect (· = .cancel fleetId) s s' := by
  obtain ⟨_, -, hok⟩ := bind_eq_ok.mp hok
  split at hok
  · rename_i F hF
    obtain ⟨row, hrow, hF⟩ := Option.bind_eq_some_iff.mp hF
    obtain ⟨-, rfl⟩ := decodeRow_eq_some.mp hF
    split_ifs at hok with hid hlive
    · cases hok
      exact .refl s
    · cases hok
      obtain rfl := not_not.mp hid
      exact .single rfl (.cancel nowMs hrow (by simpa using hlive))
  · cases hok
    exact .refl s

/-! ## Readiness -/

theorem fleetLive_eq_true (h : KernelInv s) (hl : s.fleetLive fleetId = true) :
    ∃ F, s.fleets.get fleetId = some F ∧ fleetIsLive F = true := by
  rw [fleetLive, h.fleet_eq] at hl
  cases hF : s.fleets.get fleetId with
  | none =>
    rw [hF] at hl
    cases hl
  | some F =>
    rw [hF] at hl
    exact ⟨F, rfl, hl⟩

/-- A move that keeps the fleet and touches no attempt writes one child. -/
theorem childMove_effect {k : MoveKind} {C C' : FleetChildRecord}
    (hF : s.fleets.get C.fleetId = some F)
    (hC : s.children.get (childKey C.fleetId C.childId) = some C)
    (hdeps : k = .promote → ∀ d ∈ C.deps, ∃ D,
      s.children.get (childKey C.fleetId d) = some D ∧ D.status = .succeeded)
    (hm : Move k F C none F C' none) :
    Effect (.move C.fleetId k) s
      { s with children := s.children.insert (childKey C.fleetId C.childId) C' } := by
  have he : Effect (.move C.fleetId k) s (s.setCell F C' none) := .cell ⟨hF, hC, nofun⟩ hdeps hm
  obtain ⟨hf, hc, -⟩ := hm.cellStep.child
  rwa [setCell, hf, hc, insert_eq_self hF] at he

variable {C : FleetChildRecord}

theorem promote_effect (h : KernelInv s) (nowMs : UInt64)
    (hF : s.fleets.get C.fleetId = some F) (hlive : fleetIsLive F = true)
    (hC : s.children.get (childKey C.fleetId C.childId) = some C) (hst : C.status = .planned)
    (hdeps : ∀ d ∈ C.deps, ∃ D,
      s.children.get (childKey C.fleetId d) = some D ∧ D.status = .succeeded) :
    Effect (.move C.fleetId .promote) s { s with
      children := s.children.insert (childKey C.fleetId C.childId)
        { C with status := .ready, updatedAtMs := nowMs } } := by
  -- a planned child has no current attempt: it would fit its status
  have hcur : C.currentAttemptId = none := by
    refine Option.eq_none_iff_forall_not_mem.mpr fun a ha => ?_
    obtain ⟨A, -, -, hag⟩ := h.current _ C hC a ha
    rw [hst] at hag
    cases hag
  exact childMove_effect hF hC (fun _ => hdeps) (.promote nowMs hlive hst hcur)

theorem markReady_steps (h : KernelInv s) (hok : s.markReady fleetId childId nowMs = .ok (s', b)) :
    StepsIn Effect (· = .move fleetId .promote) s s' := by
  obtain ⟨⟨⟩, hkeys, hok⟩ := bind_eq_ok.mp hok
  have hsafe := ensureKeySafe_eq_ok.mp hkeys fleetId (by simp)
  split_ifs at hok with hterm
  · cases hok
    exact .refl s
  obtain ⟨F, hF, hlive⟩ := fleetLive_eq_true h (by simpa using hterm)
  obtain ⟨row, hrow, hok⟩ := readRow_eq_ok hok
  obtain ⟨rfl, rfl⟩ := h.child_ids hsafe hrow
  split_ifs at hok with hid hst hdeps
  · cases hok
    exact .refl s
  · cases hok
    refine .single rfl (promote_effect h nowMs hF hlive hrow (not_not.mp hst) fun d hd => ?_)
    have hD := all_eq_true.mp hdeps d hd
    rw [h.child_eq hsafe] at hD
    cases hD' : s.children.get (childKey row.fleetId d) with
    | none =>
      rw [hD'] at hD
      cases hD
    | some D =>
      rw [hD'] at hD
      exact ⟨D, rfl, by simpa using hD⟩
  · cases hok
    exact .refl s

/-- The readiness loop promotes child by child. The rows of the children to come are still in
place, and so are those of the succeeded ones. -/
theorem foldl_resolveStep_steps {succeeded : List String}
    (hlive : fleetIsLive F = true) {recs : List FleetChildRecord}
    (hrecs : recs.Pairwise fun C D => childKey C.fleetId C.childId ≠ childKey D.fleetId D.childId)
    {s : FleetKernelStore} (h : KernelInv s) (hF : s.fleets.get fleetId = some F)
    (hrows : ∀ C ∈ recs, C.fleetId = fleetId ∧ s.children.get (childKey fleetId C.childId) = some C)
    (hsucc : ∀ d ∈ succeeded, ∃ D,
      s.children.get (childKey fleetId d) = some D ∧ D.status = .succeeded) (ready : List String) :
    StepsIn Effect (· = .move fleetId .promote) s { s with
      children := (recs.foldl (resolveStep fleetId succeeded nowMs) (s.children, ready)).1 } := by
  induction recs generalizing s ready with
  | nil => exact .refl s
  | cons C recs ih =>
    obtain ⟨hC, hrecs⟩ := pairwise_cons.mp hrecs
    obtain ⟨rfl, hrow⟩ := hrows C mem_cons_self
    rw [foldl_cons]
    by_cases hp : C.promotable succeeded = true
    · have hstep : resolveStep C.fleetId succeeded nowMs (s.children, ready) C =
          (s.children.insert (childKey C.fleetId C.childId)
            { C with status := .ready, updatedAtMs := nowMs },
            (resolveStep C.fleetId succeeded nowMs (s.children, ready) C).2) := by
        simp [resolveStep, promote, if_pos hp]
      rw [hstep]
      simp only [FleetChildRecord.promotable, Bool.and_eq_true, decide_eq_true_eq,
        all_eq_true, contains_iff_mem] at hp
      have he := promote_effect h nowMs hF hlive hrow hp.1.1 fun d hd => hsucc d (hp.2 d hd)
      refine StepsIn.trans (.single rfl he) ?_
      refine ih hrecs (h.effect he) hF (fun D hD => ?_) (fun d hd => ?_) _
      · obtain ⟨hf, hD'⟩ := hrows D (mem_cons_of_mem _ hD)
        refine ⟨hf, ?_⟩
        have hne := hC D hD
        rw [hf] at hne
        rw [get_insert_of_ne _ _ hne.symm, hD']
      · obtain ⟨D, hD, hst⟩ := hsucc d hd
        refine ⟨D, ?_, hst⟩
        rw [get_insert_of_ne, hD]
        -- the promoted child is planned, not succeeded
        intro he
        rw [he, hrow] at hD
        cases hD
        rw [hst] at hp
        exact absurd hp.1.1 nofun
    · have hstep : resolveStep C.fleetId succeeded nowMs (s.children, ready) C =
          (s.children, (resolveStep C.fleetId succeeded nowMs (s.children, ready) C).2) := by
        simp [resolveStep, if_neg hp]
      rw [hstep]
      exact ih hrecs h hF (fun D hD => hrows D (mem_cons_of_mem _ hD)) hsucc _

theorem exists_of_mem_succeededIds (h : KernelInv s) {d : String}
    (hd : d ∈ succeededIds (s.fleetChildren fleetId)) :
    ∃ D, s.children.get (childKey fleetId d) = some D ∧ D.status = .succeeded := by
  obtain ⟨D, hD, rfl⟩ := mem_map.mp hd
  rw [h.fleetChildren_eq, mem_filter, mem_filter, h.mem_children] at hD
  obtain ⟨⟨hrow, hf⟩, hst⟩ := hD
  obtain rfl := of_decide_eq_true hf
  exact ⟨D, hrow, of_decide_eq_true hst⟩

theorem mem_fleetChildren (h : KernelInv s) :
    C ∈ s.fleetChildren fleetId ↔
      C.fleetId = fleetId ∧ s.children.get (childKey fleetId C.childId) = some C := by
  rw [h.fleetChildren_eq, mem_filter, h.mem_children, decide_eq_true_eq]
  constructor
  · rintro ⟨hrow, rfl⟩
    exact ⟨rfl, hrow⟩
  · rintro ⟨rfl, hrow⟩
    exact ⟨hrow, rfl⟩

theorem resolveAndCollectReady_steps (h : KernelInv s)
    {out : List String} (hok : s.resolveAndCollectReady fleetId nowMs = .ok (s', out)) :
    StepsIn Effect (· = .move fleetId .promote) s s' := by
  obtain ⟨_, -, hok⟩ := bind_eq_ok.mp hok
  split_ifs at hok with hlive
  · cases hok
    exact .refl s
  · obtain ⟨F, hF, hlive⟩ := fleetLive_eq_true h (by simpa using hlive)
    cases hok
    refine foldl_resolveStep_steps hlive ?_ h hF (fun C hC => (mem_fleetChildren h).mp hC)
      (fun d hd => exists_of_mem_succeededIds h hd) []
    rw [h.fleetChildren_eq]
    exact h.children_pairwise.filter _

end Octos.Fleet.FleetKernelStore
