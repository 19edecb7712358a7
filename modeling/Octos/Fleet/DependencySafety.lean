import Octos.Fleet.Edit
import Octos.Fleet.TerminalFence

/-!
# Dependency safety

Readiness is cached: a child's row carries the dependencies of its task and a status that says
whether they succeeded. The *board* of a fleet is what its children's rows say, as a function of
the task id. A board is sound for a task list when the list is a valid graph, its tasks have
children with their dependencies, all other children are cancelled, and every child that is past
planning has all its dependencies succeeded. Moves and replans keep a board sound; the validation
of the new graph and the frozen dependencies of finished children are what a replan needs for it.

## Main results

* `Board.Sound.update`, `Replanned.sound`: moves and replans keep a board sound
* `dependency_safety`: dependency safety over whole histories
-/

namespace Octos.Fleet

open FleetKernelStore Function

/-! ## Boards -/

/-- The children of a fleet by task id. -/
abbrev Board := String → Option FleetChildRecord

def FleetKernelStore.board (s : FleetKernelStore) (f : String) : Board :=
  fun c => s.children.get (childKey f c)

/-- The task has a succeeded child. -/
def Board.Succeeded (b : Board) (d : String) : Prop := ∃ D, b d = some D ∧ D.status = .succeeded

structure Board.Sound (tasks : List PlanTask) (b : Board) : Prop where
  graph : ValidGraph tasks
  /-- Every task has a child with its dependencies, which is not cancelled. -/
  covered : ∀ t ∈ tasks, ∃ C, b t.taskId = some C ∧ C.deps = t.deps ∧ C.status ≠ .cancelled
  /-- Every other child is cancelled. -/
  removed : ∀ c C, b c = some C → c ∉ taskIds tasks → C.status = .cancelled
  /-- A child past planning has its dependencies succeeded. -/
  ready : ∀ c C, b c = some C → C.status ≠ .planned → C.status ≠ .cancelled →
    ∀ d ∈ C.deps, b.Succeeded d

namespace Board

variable {b : Board} {tasks tasks' : List PlanTask}

theorem Succeeded.update {c d : String} {C : FleetChildRecord} (hC : b c = some C)
    (hterm : C.status.isTerminal = false) (C' : FleetChildRecord) (h : b.Succeeded d) :
    Board.Succeeded (update b c (some C')) d := by
  obtain ⟨D, hD, hst⟩ := h
  have hne : d ≠ c := by
    rintro rfl
    cases hC.symm.trans hD
    rw [hst] at hterm
    cases hterm
  exact ⟨D, by rw [update_of_ne hne, hD], hst⟩

/-- **A move keeps the board sound**: it rewrites a child that is not terminal, keeps its
dependencies and does not cancel it, and takes it out of planning only when they succeeded. -/
theorem Sound.update (h : b.Sound tasks) {c : String} {C C' : FleetChildRecord}
    (hC : b c = some C) (hterm : C.status.isTerminal = false) (hdeps : C'.deps = C.deps)
    (hst : C'.status ≠ .cancelled) (hplanned : C.status = .planned → ∀ d ∈ C.deps, b.Succeeded d) :
    Board.Sound tasks (update b c (some C')) where
  graph := h.graph
  covered := by
    intro t ht
    obtain ⟨D, hD, hDdeps, hDst⟩ := h.covered t ht
    by_cases htc : t.taskId = c
    · subst htc
      cases hC.symm.trans hD
      exact ⟨C', update_self .., hdeps.trans hDdeps, hst⟩
    · exact ⟨D, by rw [update_of_ne htc, hD], hDdeps, hDst⟩
  removed := by
    intro d D hD hout
    by_cases hdc : d = c
    · -- a child outside the plan is cancelled, so no move finds it
      subst hdc
      rw [h.removed d C hC hout] at hterm
      cases hterm
    · rw [update_of_ne hdc] at hD
      exact h.removed d D hD hout
  ready := by
    intro d D hD hplan hcan e he
    by_cases hdc : d = c
    · subst hdc
      rw [update_self] at hD
      cases hD
      rw [hdeps] at he
      -- The child itself is moved: from `planned` by the hypothesis, else by what it had before.
      by_cases hp : C.status = .planned
      · exact (hplanned hp e he).update hC hterm C'
      · refine (h.ready d C hC hp ?_ e he).update hC hterm C'
        intro hc
        rw [hc] at hterm
        cases hterm
    · rw [update_of_ne hdc] at hD
      exact (h.ready d D hD hplan hcan e he).update hC hterm C'

theorem Sound.congr (h : b.Sound tasks) (hshape : taskShape tasks' = taskShape tasks) :
    b.Sound tasks' where
  graph := h.graph.congr hshape
  covered := by
    intro t' ht'
    obtain ⟨t, ht, hid, hdeps⟩ := exists_of_taskShape hshape ht'
    obtain ⟨C, hC, hCdeps, hst⟩ := h.covered t ht
    exact ⟨C, hid ▸ hC, hCdeps.trans hdeps, hst⟩
  removed := by
    intro c C hC hout
    rw [taskIds_of_taskShape hshape] at hout
    exact h.removed c C hC hout
  ready := h.ready

end Board

variable {s s' : FleetKernelStore} {f : String}

/-! ## Moves and effects -/

/-- A move of a live fleet's child, but for a replan's, keeps the dependencies of a child that is
not terminal and does not cancel it. Only a promotion finds it planned. -/
theorem Move.advances {k : MoveKind} {F F' : FleetRecord} {C C' : FleetChildRecord}
    {A A' : Option Attempt} (hm : Move k F C A F' C' A') (hl : fleetIsLive F = true)
    (hk : k ≠ .restart) :
    C.status.isTerminal = false ∧ C'.deps = C.deps ∧ C'.status ≠ .cancelled ∧
      (C.status = .planned → k = .promote) := by
  cases hm with
  | promote now hl hs => exact ⟨by rw [hs]; rfl, rfl, by rintro ⟨⟩, fun _ => rfl⟩
  | launch reserved used now hl hs | start hl hs | grant now hl hs | deny outcome now hl hs =>
    exact ⟨by rw [hs]; rfl, rfl, by rintro ⟨⟩, by rw [hs]; rintro ⟨⟩⟩
  | settle _ _ _ _ _ hset _ hs =>
    cases hset with
    | complete =>
      refine ⟨by rw [hs]; rfl, rfl, ?_, by rw [hs]; rintro ⟨⟩⟩
      simp only [completedChild]
      split_ifs <;> rintro ⟨⟩
    | escalate => exact ⟨by rw [hs]; rfl, rfl, by rintro ⟨⟩, by rw [hs]; rintro ⟨⟩⟩
  | reclaim _ _ _ hs =>
    refine ⟨?_, rfl, ?_, ?_⟩
    · rcases hs with hs | hs <;> rw [hs] <;> rfl
    · simp [hl]
    · rcases hs with hs | hs <;> rw [hs] <;> rintro ⟨⟩
  | restartIdle | restartLive => exact absurd rfl hk

/-- While the fleet is live, its board is sound for its plan. -/
def PlanSafe (f : String) (s : FleetKernelStore) : Prop :=
  ∀ F, s.fleets.get f = some F → fleetIsLive F = true →
    ∃ P, s.plans.get f = some P ∧ (s.board f).Sound P.tasks

/-- An effect that does not build or rebuild the task graph of the fleet. -/
def Label.keepsGraph (f : String) : Label → Prop
  | .newFleet g | .newChild g | .newPlan g => g ≠ f
  | .move g k => g = f → k ≠ .restart
  | _ => True

theorem board_eq_of_frame (h : KernelInv s) (h' : KernelInv s')
    (hsafe : keyComponentIsSafe f = true) (hframe : FleetFrame f s s') :
    s'.board f = s.board f := by
  funext c
  refine Option.ext fun C => ?_
  constructor
  · intro hC
    exact (hframe.children _ C (h'.child_ids hsafe hC).1).mp hC
  · intro hC
    exact (hframe.children _ C (h.child_ids hsafe hC).1).mpr hC

theorem PlanSafe.of_frame (h : KernelInv s) (h' : KernelInv s') (hframe : FleetFrame f s s')
    (hs : PlanSafe f s) : PlanSafe f s' := by
  intro F hF hlive
  rw [hframe.fleet] at hF
  rw [hframe.plan, board_eq_of_frame h h' (h.fleetRow f F hF).2.1 hframe]
  exact hs F hF hlive

theorem board_setCell {F : FleetRecord} {C : FleetChildRecord} {A : Option Attempt}
    (hsafe : keyComponentIsSafe C.fleetId = true) :
    (s.setCell F C A).board C.fleetId = update (s.board C.fleetId) C.childId (some C) := by
  funext c
  change (s.children.insert (childKey C.fleetId C.childId) C).get (childKey C.fleetId c) = _
  by_cases hc : c = C.childId
  · rw [hc, Table.get_insert_self, update_self]
  · rw [update_of_ne hc, Table.get_insert_of_ne]
    · rfl
    · intro hk
      exact hc ((childKey_inj hsafe hsafe).mp hk).2

variable {l : Label}

/-- **An effect that does not rebuild the task graph keeps the board sound.** -/
theorem Effect.planSafe (h : KernelInv s) (he : Effect l s s')
    (hl : l.keepsGraph f) (hs : PlanSafe f s) : PlanSafe f s' := by
  by_cases hf : l.fleet = some f
  swap
  · exact hs.of_frame h (h.effect he) (he.frame h hf)
  intro F' hF' hlive'
  cases he with
  | events => cases hf
  | newFleet | newChild | newPlan => exact absurd (Option.some.inj hf) hl
  | @editPlan _ F P P' hF hlive hP _ _ hshape =>
    cases hf
    obtain ⟨P₀, hP₀, hsound⟩ := hs F hF hlive
    cases hP.symm.trans hP₀
    exact ⟨P', Table.get_insert_self .., hsound.congr hshape⟩
  | cancel =>
    -- a cancelled fleet is not live
    cases hf
    rw [Table.get_insert_self] at hF'
    cases hF'
    cases hlive'
  | @bump _ F generation now hF hlive _ =>
    cases hf
    exact hs F hF hlive
  | @cell _ k F G C C' A A' hc hdeps hm =>
    cases hf
    have hstep := hm.cellStep
    have hsafe := h.safe_fleetId hc.child
    have hlive : fleetIsLive F = true := by
      have hrow : (s.setCell G C' A').fleets.get C.fleetId = some G := by
        rw [← hstep.child.1]
        exact Table.get_insert_self ..
      cases hrow.symm.trans hF'
      rwa [fleetIsLive_congr hstep.fleet.2.2.1] at hlive'
    obtain ⟨P, hP, hsound⟩ := hs F hc.fleet hlive
    obtain ⟨hterm, hdeps', hst, hplanned⟩ := hm.advances hlive (hl rfl)
    refine ⟨P, hP, ?_⟩
    rw [← hstep.child.1, board_setCell (by rwa [hstep.child.1]), hstep.child.1, hstep.child.2.1]
    exact hsound.update hc.child hterm hdeps' hst fun hp => hdeps (hplanned hp)

variable {op : Op}

theorem Op.touches_keepsGraph (hop : op.keepsGraph f = true)
    (hl : op.Touches l) : l.keepsGraph f := by
  cases op with
  | createFleet | createPlan | addChild => cases hl; exact (of_decide_eq_true hop : _ ≠ f)
  | createFleetWithPlan => rcases hl with rfl | rfl | rfl <;> exact (of_decide_eq_true hop : _ ≠ f)
  | replan =>
    have hne := of_decide_eq_true hop
    rcases hl with rfl | rfl | rfl | rfl
    all_goals first | trivial | exact hne | exact fun hg => absurd hg hne
  | markReady | resolveAndCollectReady => cases hl; exact fun _ => nofun
  | launchChild | completeChild | recordEscalation | setTaskGrant =>
    rcases hl with rfl | rfl
    exacts [trivial, fun _ => nofun]
  | markRunning => obtain ⟨g, rfl⟩ := hl; exact fun _ => nofun
  | denyEscalation => rcases hl with rfl | rfl | rfl; exacts [trivial, trivial, fun _ => nofun]
  | reconcile => obtain ⟨g, rfl | rfl⟩ := hl <;> exact fun _ => nofun
  | _ => cases hl; trivial

/-- **A call that does not rebuild the task graph keeps the board sound.** -/
theorem Op.exec_planSafe (h : KernelInv s) (hfresh : op.Fresh s)
    (hop : op.keepsGraph f = true) (hs : PlanSafe f s) : PlanSafe f (op.exec s) :=
  ((Op.exec_steps h hfresh).invariant (P := fun t => KernelInv t ∧ PlanSafe f t)
    (fun _ _ _ hl he ih => ⟨ih.1.effect he, he.planSafe ih.1 (Op.touches_keepsGraph hop hl) ih.2⟩)
    ⟨h, hs⟩).2

/-! ## Genesis and replan -/

/-- **A genesis from a valid graph leaves a sound board.** -/
theorem createFleetWithPlan_planSafe (h : KernelInv s) {key profileId : String}
    {root : Option String} {hint : Option Bool} {tokenBudget nowMs : UInt64} {hard : Bool}
    {plan : DurablePlan} {u : Unit}
    (hok : s.createFleetWithPlan key root hint profileId tokenBudget hard plan nowMs = .ok (s', u))
    (hvalid : ValidGraph plan.tasks) : PlanSafe plan.fleetId s' := by
  obtain ⟨hplan, hnew, hfrom⟩ := createFleetWithPlan_spec hok h
  refine fun F hF hlive => ⟨_, hplan, hvalid, fun t ht => ?_, fun c C hC hout => ?_, ?_⟩
  · refine ⟨_, hnew t ht, rfl, ?_⟩
    unfold newChild genesisStatus
    split_ifs <;> nofun
  · obtain ⟨t, ht, rfl, -⟩ := hfrom c C hC
    exact absurd (mem_taskIds ht) hout
  · -- only a child without dependencies starts ready
    intro c C hC hplanned _ d hd
    obtain ⟨t, ht, -, rfl⟩ := hfrom c C hC
    by_cases hdeps : t.deps.isEmpty = true
    · rw [newChild, List.isEmpty_iff.mp hdeps] at hd
      cases hd
    · exact absurd (by simp [newChild, genesisStatus, hdeps]) hplanned

theorem ValidGraph.find?_eq {tasks : List PlanTask} (h : ValidGraph tasks) {t : PlanTask}
    (ht : t ∈ tasks) : tasks.find? (·.taskId = t.taskId) = some t := by
  cases hfind : tasks.find? (·.taskId = t.taskId) with
  | none => simpa using List.find?_eq_none.mp hfind t ht
  | some t' =>
    have hid : t'.taskId = t.taskId := by simpa using List.find?_some hfind
    rw [List.inj_on_of_nodup_map h.nodup (List.mem_of_find?_eq_some hfind) ht hid]

section

variable {tasks : List PlanTask} {C : FleetChildRecord} (succeeded : List String)
  (generation now : UInt64) (b : Bool)

theorem replanChild_removed (hout : C.childId ∉ taskIds tasks) :
    (replanChild tasks succeeded generation now b C).status = .cancelled := by
  have hout : ¬ (tasks.map (·.taskId)).contains C.childId = true := by simpa [taskIds] using hout
  unfold replanChild
  rw [if_neg hout]

theorem replanChild_survives (hvalid : ValidGraph tasks) {t : PlanTask} (ht : t ∈ tasks)
    (hid : C.childId = t.taskId) :
    let C' := replanChild tasks succeeded generation now b C
    C'.deps = t.deps ∧
      ((C.status = .succeeded ∧ C'.status = .succeeded) ∨
        (C.status ≠ .succeeded ∧ C'.status = readiness succeeded t.deps)) := by
  have hin : (tasks.map (·.taskId)).contains C.childId = true := by
    rw [List.contains_iff_mem, hid]
    exact mem_taskIds ht
  have hdeps : ((tasks.find? (·.taskId = C.childId)).map (·.deps)).getD [] = t.deps := by
    rw [hid, hvalid.find?_eq ht]
    rfl
  unfold replanChild
  rw [if_pos hin, hdeps]
  by_cases hs : C.status = .succeeded
  · rw [if_pos hs]
    exact ⟨rfl, .inl ⟨hs, hs⟩⟩
  · rw [if_neg hs]
    exact ⟨rfl, .inr ⟨hs, rfl⟩⟩

end

theorem readiness_ne_cancelled (succeeded deps : List String) :
    readiness succeeded deps ≠ .cancelled := by
  rcases readiness_cases succeeded deps with hr | hr <;> rw [hr] <;> nofun

theorem mem_of_readiness {succeeded deps : List String}
    (h : readiness succeeded deps ≠ .planned) : ∀ d ∈ deps, d ∈ succeeded := by
  unfold readiness at h
  split_ifs at h with hall
  · simpa using hall
  · exact absurd rfl h

section

variable {F : FleetRecord} {P newPlan : DurablePlan} {newRev newGen nowMs : UInt64}
  {succeeded : List String}

section

variable (h : KernelInv s) (hr : Replanned s s' f F P newPlan newRev newGen nowMs succeeded)
include h hr

theorem FleetKernelStore.Replanned.succeeded_stays
    (hvalid : ValidGraph newPlan.tasks) {d : String} (hd : d ∈ taskIds newPlan.tasks)
    (hsucc : (s.board f).Succeeded d) : (s'.board f).Succeeded d := by
  obtain ⟨D, hD, hst⟩ := hsucc
  obtain ⟨t, ht, rfl⟩ := List.mem_map.mp hd
  refine ⟨_, hr.kept _ D hD, ?_⟩
  rcases (replanChild_survives _ _ _ _ hvalid ht (h.child_ids hr.safe hD).2).2 with
    ⟨-, hs⟩ | ⟨hs, -⟩
  · exact hs
  · exact absurd hst hs

variable {C' : FleetChildRecord}

/-- What a replan leaves for a task: its dependencies, and the success of a child that had it or
the readiness against the succeeded children. -/
theorem FleetKernelStore.Replanned.row
    (hvalid : ValidGraph newPlan.tasks) {t : PlanTask} (ht : t ∈ newPlan.tasks)
    (hC' : s'.board f t.taskId = some C') :
    C'.deps = t.deps ∧
      ((∃ C, s.board f t.taskId = some C ∧ C.status = .succeeded ∧ C'.status = .succeeded) ∨
        C'.status = readiness succeeded t.deps) := by
  cases hC : s.board f t.taskId with
  | none =>
    obtain ⟨t', ht', hid, rfl⟩ := hr.added _ hC C' hC'
    obtain rfl := List.inj_on_of_nodup_map hvalid.nodup ht' ht hid
    exact ⟨rfl, .inr rfl⟩
  | some C =>
    cases (hr.kept _ C hC).symm.trans hC'
    obtain ⟨hdeps, hst⟩ := replanChild_survives succeeded newGen nowMs C.status.inFlight hvalid ht
      (h.child_ids hr.safe hC).2
    exact ⟨hdeps, hst.imp (fun hs => ⟨C, rfl, hs⟩) And.right⟩

theorem FleetKernelStore.Replanned.removed {c : String}
    (hC' : s'.board f c = some C') (hout : c ∉ taskIds newPlan.tasks) :
    C'.status = .cancelled := by
  cases hC : s.board f c with
  | none =>
    obtain ⟨t, ht, rfl, -⟩ := hr.added c hC C' hC'
    exact absurd (mem_taskIds ht) hout
  | some C =>
    cases (hr.kept c C hC).symm.trans hC'
    exact replanChild_removed _ _ _ _ (by rwa [(h.child_ids hr.safe hC).2])

/-- **A replan to a valid graph keeps the board sound.** -/
theorem FleetKernelStore.Replanned.sound
    (hvalid : ValidGraph newPlan.tasks) (hs : (s.board f).Sound P.tasks) :
    (s'.board f).Sound newPlan.tasks where
  graph := hvalid
  covered := by
    intro t ht
    obtain ⟨C', hC'⟩ := hr.covered t ht
    obtain ⟨hdeps, ⟨C, -, -, hst⟩ | hst⟩ := hr.row h hvalid ht hC'
    · exact ⟨C', hC', hdeps, by rw [hst]; nofun⟩
    · exact ⟨C', hC', hdeps, by rw [hst]; exact readiness_ne_cancelled _ _⟩
  removed := fun c C' hC' hout => hr.removed h hC' hout
  ready := by
    intro c C' hC' hplanned hcancelled d hd
    by_cases hin : c ∈ taskIds newPlan.tasks
    swap
    · -- a child outside the new plan is cancelled
      exact absurd (hr.removed h hC' hin) hcancelled
    obtain ⟨t, ht, rfl⟩ := List.mem_map.mp hin
    obtain ⟨hdeps, ⟨C, hC, hsucc, -⟩ | hst⟩ := hr.row h hvalid ht hC'
    · -- the dependencies of a succeeded child are frozen, and they stay in the plan
      rw [hdeps] at hd
      refine hr.succeeded_stays h hvalid (hvalid.deps_mem t ht d hd) ?_
      rw [← hr.frozen t ht C hC (.inl hsucc)] at hd
      exact hs.ready _ C hC (by rw [hsucc]; nofun) (by rw [hsucc]; nofun) d hd
    · rw [hst] at hplanned
      rw [hdeps] at hd
      obtain ⟨hmem, hD⟩ := (hr.succeeded_iff d).mp (mem_of_readiness hplanned d hd)
      exact hr.succeeded_stays h hvalid hmem hD

end

end

theorem replan_planSafe (h : KernelInv s) {expectedRevision nowMs : UInt64} {newPlan : DurablePlan}
    {out : PlanMutateOutcome} (hok : s.replan f expectedRevision newPlan nowMs = .ok (s', out))
    (hvalid : ValidGraph newPlan.tasks) (hs : PlanSafe f s) : PlanSafe f s' := by
  rcases replan_spec h hok with ⟨rfl, -⟩ | ⟨F, P, newRev, newGen, succeeded, -, -, hr, -⟩
  · exact hs
  · intro _ _ _
    obtain ⟨P₀, hP₀, hsound⟩ := hs F hr.fleet hr.live
    cases hr.plan.symm.trans hP₀
    have hsound' := hr.sound h hvalid hsound
    exact ⟨_, hr.plan', hsound'⟩

/-! ## Histories -/

variable {ops : List Op}

theorem fresh_of_snoc (hd : MintsDistinct (ops ++ [op])) : op.Fresh (run ops) :=
  ((guarded_snoc Op.exec _).mp (guarded_fresh hd)).2

/-- **The board is sound in every state that the plan layer lets arise.** -/
theorem planSafe_history (hist : PlannedThroughFleet f ops)
    (hd : MintsDistinct ops) : PlanSafe f (run ops) := by
  induction hist with
  | nil => exact fun F hF => by simp [run, FleetKernelStore.empty] at hF
  | @create ops op _ _ _ _ _ _ _ _ _ hgen ih =>
    have h := run_inv (mintsDistinct_of_append hd)
    rw [run_snoc]
    rcases op.exec_cases (run ops) with hsame | hp
    · rw [hsame]
      exact ih (mintsDistinct_of_append hd)
    · obtain ⟨plan, rfl, rfl, hvalid⟩ := genesis_eq_ok hgen
      obtain ⟨_, hok⟩ := map_fst_eq_ok.mp hp
      exact createFleetWithPlan_planSafe h hok (.of_validateGraph hvalid)
  | @edit ops _ _ expectedRevision nowMs call _ _ _ _ hprep ih =>
    have h := run_inv (mintsDistinct_of_append hd)
    have hs := ih (mintsDistinct_of_append hd)
    rw [run_snoc]
    rcases prepareEdit_call hprep with ⟨newPlan, rfl, hvalid⟩ | hkeeps
    · -- whichever snapshot the edit was decided on, the replan checks it against the store now
      rcases Op.exec_cases (run ops) (.replan f expectedRevision newPlan nowMs) with hsame | hp
      · rw [PlanCall.toOp, hsame]
        exact hs
      · obtain ⟨_, hok⟩ := map_fst_eq_ok.mp hp
        exact replan_planSafe h hok (.of_validateGraph hvalid) hs
    · exact Op.exec_planSafe h (fresh_of_snoc hd) (hkeeps nowMs) hs
  | other _ hop ih =>
    rw [run_snoc]
    exact Op.exec_planSafe (run_inv (mintsDistinct_of_append hd)) (fresh_of_snoc hd) hop
      (ih (mintsDistinct_of_append hd))

theorem launchChild_ready {c a e : String} {t n o ttl : UInt64} {aid : String}
    (hok : s.launchChild f c t n o ttl a e = .ok (s', .launched aid)) :
    ∃ C, s.child f c = some C ∧ C.status = .ready := by
  obtain ⟨_, -, hok⟩ := bind_eq_ok.mp hok
  cases hC : s.child f c with
  | none =>
    rw [hC] at hok
    cases hok
  | some C =>
    simp only [hC] at hok
    split_ifs at hok with hst hdouble hcur
    · cases hok
    · cases hok
    · cases hok
    · exact ⟨C, rfl, not_not.mp hst⟩

/-- **Dependency safety.** In every state of a live fleet that is created and edited through the
plan layer, under any interleaving of its edits with the other calls: every task of the plan has a
child with its dependencies, every child outside the plan is cancelled, every child that is ready
or further has all its dependencies succeeded, and so no launch takes effect before the
dependencies of its child were accepted. -/
theorem dependency_safety {ops : List Op} (hist : PlannedThroughFleet f ops)
    (hd : MintsDistinct ops) {F : FleetRecord} (hF : (run ops).fleet f = some F)
    (hlive : fleetIsLive F = true) :
    ∃ P, (run ops).plan f = some P ∧
      (∀ t ∈ P.tasks, ∃ C, (run ops).child f t.taskId = some C ∧ C.deps = t.deps) ∧
      (∀ c C, (run ops).child f c = some C → c ∉ taskIds P.tasks → C.status = .cancelled) ∧
      (∀ c C, (run ops).child f c = some C →
        C.status ∈ [.ready, .launching, .running, .blocked, .succeeded, .failed] →
        ∀ d ∈ C.deps, ∃ D, (run ops).child f d = some D ∧ D.status = .succeeded) ∧
      ∀ c t n o ttl a e s' aid,
        (run ops).launchChild f c t n o ttl a e = .ok (s', .launched aid) →
        ∃ C, (run ops).child f c = some C ∧
          ∀ d ∈ C.deps, ∃ D, (run ops).child f d = some D ∧ D.status = .succeeded := by
  have h := run_inv hd
  rw [h.fleet_eq] at hF
  have hread := h.child_eq (h.fleetRow f F hF).2.1
  obtain ⟨P, hP, hsound⟩ := planSafe_history hist hd F hF hlive
  have hready : ∀ c C, (run ops).child f c = some C →
      C.status ∈ [.ready, .launching, .running, .blocked, .succeeded, .failed] →
      ∀ d ∈ C.deps, ∃ D, (run ops).child f d = some D ∧ D.status = .succeeded := by
    intro c C hC hst d hdep
    rw [hread] at hC
    have hne : C.status ≠ .planned ∧ C.status ≠ .cancelled := by
      constructor <;> intro heq <;> rw [heq] at hst <;> revert hst <;> decide
    obtain ⟨D, hD, hDst⟩ := hsound.ready c C hC hne.1 hne.2 d hdep
    exact ⟨D, (hread d).trans hD, hDst⟩
  refine ⟨P, (h.plan_eq f).trans hP, fun t ht => ?_, fun c C hC hout => ?_, hready, ?_⟩
  · obtain ⟨C, hC, hdeps, -⟩ := hsound.covered t ht
    exact ⟨C, (hread t.taskId).trans hC, hdeps⟩
  · rw [hread] at hC
    exact hsound.removed c C hC hout
  · intro c t n o ttl a e s' aid hok
    obtain ⟨C, hC, hst⟩ := launchChild_ready hok
    exact ⟨C, hC, hready c C hC (by rw [hst]; decide)⟩

/-- A task without title, criteria or special grants. -/
def plainSpec (taskId : String) (deps : List String) : TaskSpec :=
  ⟨taskId, "", "", deps, [], .minimal⟩

/-- The creation of a fleet of the task `a` and its dependent `b`. -/
def chainGenesis : Op :=
  .createFleetWithPlan "k" none none "p" 100 false
    ⟨schemaVersion, "f", 0, "o", [(plainSpec "a" []).toTask, (plainSpec "b" ["a"]).toTask]⟩ 0

theorem chainGenesis_history : PlannedThroughFleet "f" [chainGenesis] := by
  have hgen : genesis "f" "k" none none "p" ⟨100, 0, 0, false⟩ "o"
      [plainSpec "a" [], plainSpec "b" ["a"]] 0 = .ok chainGenesis := by decide
  have hist := PlannedThroughFleet.create .nil hgen
  exact hist

/-- The task `a` of the fleet runs and is accepted. -/
def firstSucceeded : List Op :=
  [chainGenesis, .launchChild "f" "a" 10 0 1 5 "x" "e", .markRunning "a" "x",
    .completeChild "f" "a" "x" (.accepted []) ⟨"", true, 7, [], none⟩ 7 1 3 "e"]

theorem firstSucceeded_history : PlannedThroughFleet "f" firstSucceeded :=
  chainGenesis_history.append
    (show ∀ op ∈ firstSucceeded.tail, op.keepsGraph "f" = true by decide)

/-- An edit decided before `a` succeeded adds a second dependent after it. -/
def lateAdd : PlanCall :=
  .replan ⟨schemaVersion, "f", 0, "o",
    [(plainSpec "a" []).toTask, (plainSpec "b" ["a"]).toTask, (plainSpec "c" ["a"]).toTask]⟩

/-- Both dependents are ready after the late edit, and their dependency is accepted. -/
theorem dependency_safety_lateAdd :
    ((run (firstSucceeded ++ [lateAdd.toOp "f" 0 4])).child "f" "c").map (·.status) = some .ready ∧
    ∀ c C, (run (firstSucceeded ++ [lateAdd.toOp "f" 0 4])).child "f" c = some C →
      C.status ∈ [.ready, .launching, .running, .blocked, .succeeded, .failed] →
      ∀ d ∈ C.deps, ∃ D, (run (firstSucceeded ++ [lateAdd.toOp "f" 0 4])).child "f" d = some D ∧
        D.status = .succeeded := by
  have hprep : prepareEdit (run [chainGenesis]) "f" (.addTask (plainSpec "c" ["a"])) 0 =
      .ok (.call lateAdd .replan "add task c") := by decide
  have hist : PlannedThroughFleet "f" (firstSucceeded ++ [lateAdd.toOp "f" 0 4]) :=
    .edit firstSucceeded_history ⟨firstSucceeded.tail, rfl⟩ hprep
  have hd : MintsDistinct (firstSucceeded ++ [lateAdd.toOp "f" 0 4]) := by decide
  cases hF : (run (firstSucceeded ++ [lateAdd.toOp "f" 0 4])).fleet "f" with
  | none => exact absurd hF (by decide)
  | some =>
    have hlive : ((run (firstSucceeded ++ [lateAdd.toOp "f" 0 4])).fleet "f").all fleetIsLive := by
      decide
    rw [hF] at hlive
    obtain ⟨P, -, -, -, hready, -⟩ := dependency_safety hist hd hF hlive
    exact ⟨by decide, hready⟩

/-- **The plan layer keeps the board sound**, and leaves a history again. -/
theorem layer_sound {ops : List Op} (hist : PlannedThroughFleet f ops) (hd : MintsDistinct ops)
    {s' : FleetKernelStore} (h : LayerStep f (run ops) s') :
    PlanSafe f s' ∧ ∃ ops', s' = run (ops ++ ops') ∧ PlannedThroughFleet f (ops ++ ops') ∧
      MintsDistinct (ops ++ ops') := by
  obtain ⟨ops', rfl, hist', hmints⟩ := h.history hist
  have hd' : MintsDistinct (ops ++ ops') := by
    rwa [MintsDistinct, List.filterMap_append, hmints, List.append_nil]
  exact ⟨planSafe_history hist' hd', ops', rfl, hist', hd'⟩

theorem layer_sound_addTask : ∃ s',
    applyEdit (run firstSucceeded) "f" (.addTask (plainSpec "c" ["a"])) 0 4 = .ok (s', .mutated 1) ∧
      PlanSafe "f" s' := by
  have hok : Prod.snd <$> applyEdit (run firstSucceeded) "f" (.addTask (plainSpec "c" ["a"])) 0 4 =
      .ok (.mutated 1) := by decide
  obtain ⟨⟨s', _⟩, hs', rfl⟩ := map_eq_ok.mp hok
  exact ⟨s', hs', (layer_sound firstSucceeded_history (by decide) (.inr ⟨_, _, _, _, hs'⟩)).1⟩

end Octos.Fleet
