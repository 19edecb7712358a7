import Octos.Fleet.Events

/-!
# The terminal fence

A complete, failed or cancelled fleet is fenced: every operation but recovery leaves its row, its
plan, its children and its attempts as they are. Recovery takes the attempts that were still live
back and retires their children; after it nothing of the fleet changes any more, not even by
another recovery.

The fence does not extend to the outbox: an event a caller hands to `append_event` is appended for
whatever fleet it names. The operations themselves append none for a fenced fleet.

## Main results

* `Effect.frame_of_terminal`: of a terminal fleet, only a retirement changes something
* `terminal_fence`: the fence over whole runs
-/

namespace Octos.Fleet

open FleetKernelStore Op Table

variable {s s' s'' : FleetKernelStore} {f : String} {F : FleetRecord}

/-! ## Frames -/

/-- Nothing of the fleet differs: its row, its plan, its children and its attempts. -/
structure FleetFrame (f : String) (s s' : FleetKernelStore) : Prop where
  fleet : s'.fleets.get f = s.fleets.get f
  plan : s'.plans.get f = s.plans.get f
  children : ∀ k C, C.fleetId = f → (s'.children.get k = some C ↔ s.children.get k = some C)
  attempts : ∀ k A, A.fleetId = f → (s'.attempts.get k = some A ↔ s.attempts.get k = some A)

theorem FleetFrame.refl (f : String) (s : FleetKernelStore) : FleetFrame f s s :=
  ⟨rfl, rfl, fun _ _ _ => Iff.rfl, fun _ _ _ => Iff.rfl⟩

theorem FleetFrame.trans (h₁ : FleetFrame f s s') (h₂ : FleetFrame f s' s'') :
    FleetFrame f s s'' where
  fleet := h₂.fleet.trans h₁.fleet
  plan := h₂.plan.trans h₁.plan
  children := fun k C hC => (h₂.children k C hC).trans (h₁.children k C hC)
  attempts := fun k A hA => (h₂.attempts k A hA).trans (h₁.attempts k A hA)

def Label.fleet : Label → Option String
  | .events => none
  | .newFleet f | .newChild f | .newPlan f | .editPlan f | .cancel f | .bump f | .move f _ => some f

variable {l : Label}

theorem Effect.frame (h : KernelInv s) (he : Effect l s s') (hl : l.fleet ≠ some f) :
    FleetFrame f s s' := by
  cases he with
  | events => exact ⟨rfl, rfl, fun _ _ _ => Iff.rfl, fun _ _ _ => Iff.rfl⟩
  | newFleet | cancel | bump =>
    refine ⟨get_insert_of_ne _ _ ?_, rfl, fun _ _ _ => Iff.rfl, fun _ _ _ => Iff.rfl⟩
    rintro rfl
    exact hl rfl
  | newPlan | editPlan =>
    refine ⟨rfl, get_insert_of_ne _ _ ?_, fun _ _ _ => Iff.rfl, fun _ _ _ => Iff.rfl⟩
    rintro rfl
    exact hl rfl
  | @newChild _ F C hF hlive =>
    have hne : C.fleetId ≠ f := by
      rintro rfl
      exact hl rfl
    refine ⟨rfl, rfl, get_insert_iff hne ?_, fun _ _ _ => Iff.rfl⟩
    -- a child under the key belongs to the same fleet
    intro C₀ hC₀
    rw [(h.child_ids (h.fleetRow _ F hF).2.1 hC₀).1]
    exact hne
  | @cell _ k F F' C C' A A' hc _ hm =>
    have hne : C.fleetId ≠ f := by
      rintro rfl
      exact hl rfl
    obtain ⟨hcf, hcc, -⟩ := hm.cellStep.child
    refine ⟨get_insert_of_ne _ _ (by rw [hcf]; exact hne.symm), rfl, ?_, ?_⟩
    · refine get_insert_iff (by rw [hcf]; exact hne) ?_
      intro C₀ hC₀
      rw [hcf, hcc, hc.child] at hC₀
      cases hC₀
      exact hne
    · cases A' with
      | none => exact fun _ _ _ => Iff.rfl
      | some a' =>
        obtain ⟨hrow, hafid, -⟩ := hc.attempt a' rfl
        refine get_insert_iff (by rw [hafid]; exact hne) ?_
        intro a₀ ha₀
        rw [hcc, hrow] at ha₀
        rcases hm.cellStep.attempt with ⟨hn, -⟩ | ⟨hn, -⟩ | ⟨a, _, ha, hb, -, hfid, -⟩
        · rw [hn] at ha₀
          cases ha₀
        · rw [hn] at ha₀
          cases ha₀
        · cases hb
          cases ha.symm.trans ha₀
          rw [← hfid, hafid]
          exact hne

/-! ## Terminal fleets -/

variable {F' : FleetRecord}

theorem Move.live_or_retire {k : MoveKind} {C C' : FleetChildRecord}
    {A A' : Option Attempt} (hm : Move k F C A F' C' A') :
    fleetIsLive F = true ∨ (k = .retire ∧ C.status.inFlight = true) := by
  cases hm with
  | reclaim _ _ hk hst =>
    by_cases hlive : fleetIsLive F = true
    · exact .inl hlive
    · rw [if_neg hlive] at hk
      refine .inr ⟨hk, ?_⟩
      rcases hst with hst | hst <;> rw [hst] <;> rfl
  | promote now hlive | launch reserved used now hlive | start hlive
  | settle actual committed reserved childCommitted now hk hlive | grant now hlive
  | deny outcome now hlive | restartIdle tasks succeeded generation now hlive
  | restartLive _ _ _ _ _ hlive => exact .inl hlive

theorem Effect.retires_of_terminal (hF : s.fleets.get f = some F) (hterm : fleetIsLive F = false)
    (he : Effect l s s') (hl : l.fleet = some f) :
    l = .move f .retire ∧
      ∃ k C, s.children.get k = some C ∧ C.fleetId = f ∧ C.status.inFlight = true := by
  -- every other effect on a fleet found it live, or found none
  have habsurd : ∀ {G : FleetRecord}, s.fleets.get f = some G → fleetIsLive G = true → False := by
    intro G hG hlive
    cases hG.symm.trans hF
    rw [hterm] at hlive
    cases hlive
  cases he with
  | events => cases hl
  | newFleet hnone =>
    cases hl
    rw [hnone] at hF
    cases hF
  | newChild hG hlive | newPlan hG hlive | editPlan hG hlive | cancel now hG hlive
  | bump _ _ hG hlive =>
    cases hl
    exact (habsurd hG hlive).elim
  | @cell _ k G G' C C' A A' hc _ hm =>
    cases hl
    rcases hm.live_or_retire with hlive | ⟨rfl, hfly⟩
    · exact (habsurd hc.fleet hlive).elim
    · exact ⟨rfl, _, C, hc.child, rfl, hfly⟩

section

variable (h : KernelInv s) (hF : s.fleets.get f = some F) (hterm : fleetIsLive F = false)
  (he : Effect l s s')
include h hF hterm he

theorem Effect.frame_of_terminal (hl : l ≠ .move f .retire) :
    FleetFrame f s s' := by
  by_cases hf : l.fleet = some f
  · exact absurd (he.retires_of_terminal hF hterm hf).1 hl
  · exact he.frame h hf

theorem Effect.terminal :
    ∃ F', s'.fleets.get f = some F' ∧ F'.status = F.status := by
  by_cases hl : l = .move f .retire
  · cases he with
    | @cell _ k G G' C C' A A' hc _ hm =>
      cases hl
      cases hc.fleet.symm.trans hF
      refine ⟨G', ?_, hm.cellStep.fleet.2.2.1⟩
      rw [← hm.cellStep.child.1]
      exact get_insert_self ..
    | _ => cases hl
  · exact ⟨F, by rw [(he.frame_of_terminal h hF hterm hl).fleet, hF], rfl⟩

end

theorem fleetIsLive_eq_false :
    fleetIsLive F = false ↔ F.status = .complete ∨ F.status = .failed ∨ F.status = .cancelled := by
  unfold fleetIsLive
  cases F.status <;> simp

theorem fleetIsLive_congr (h : F'.status = F.status) : fleetIsLive F' = fleetIsLive F := by
  unfold fleetIsLive
  rw [h]

/-- A terminal fleet without children in flight. -/
structure Drained (f : String) (s : FleetKernelStore) : Prop where
  terminal : ∃ F, s.fleets.get f = some F ∧ fleetIsLive F = false
  idle : ∀ k C, s.children.get k = some C → C.fleetId = f → C.status.inFlight = false

theorem Drained.frame (h : KernelInv s) (hd : Drained f s) (he : Effect l s s') :
    FleetFrame f s s' := by
  obtain ⟨F, hF, hterm⟩ := hd.terminal
  refine he.frame_of_terminal h hF hterm ?_
  rintro rfl
  obtain ⟨-, k, C, hC, hf, hfly⟩ := he.retires_of_terminal hF hterm rfl
  rw [hd.idle k C hC hf] at hfly
  cases hfly

theorem Drained.of_frame (hd : Drained f s) (hf : FleetFrame f s s') : Drained f s' where
  terminal := by
    rw [hf.fleet]
    exact hd.terminal
  idle := fun k C hC hfid => hd.idle k C ((hf.children k C hfid).mp hC) hfid

theorem Drained.released (h : KernelInv s) (hd : Drained f s) :
    (∀ k A, s.attempts.get k = some A → A.fleetId = f → A.status.isLive = false) ∧
    ∀ F, s.fleets.get f = some F → F.budget.tokensReserved = 0 := by
  have hlive : ∀ k A, s.attempts.get k = some A → A.fleetId = f → A.status.isLive = false := by
    intro k A hA hf
    by_contra hl
    rw [Bool.not_eq_false] at hl
    -- a live attempt is the current one of a child, which then is in flight
    obtain ⟨-, C, hC, hcur⟩ := h.live k A hA hl
    obtain ⟨A₀, hA₀, hfid, hag⟩ := h.current _ C hC _ hcur
    have hids := h.child_ids (by
      obtain ⟨⟨F, hF, -⟩, -⟩ := h.live k A hA hl
      exact (h.fleetRow _ F hF).2.1) hC
    rw [hids.2, ← (h.attemptRow k A hA).1, hA] at hA₀
    cases hA₀
    have hidle := hd.idle _ C hC (hids.1.trans hf)
    rw [agrees_inFlight hag hl] at hidle
    cases hidle
  refine ⟨hlive, fun F hF => ?_⟩
  have hsum := h.reserved f F hF
  rw [sum_eq_zero] at hsum
  · exact UInt64.toNat_inj.mp hsum
  · intro k A hA
    by_cases hf : A.fleetId = f
    · simp [heldBy, hf, Attempt.held, hlive k A hA hf]
    · simp [heldBy, hf]

/-! ## Calls -/

def Op.isReconcile : Op → Bool
  | .reconcile _ _ => true
  | _ => false

variable {op : Op}

theorem Op.not_touches_retire (hop : op.isReconcile = false) (f : String) :
    ¬ op.Touches (.move f .retire) := by
  cases op with
  | reconcile => cases hop
  | markRunning =>
    rintro ⟨g, hg⟩
    cases hg
  | _ => simp [Op.Touches, genesisLabel, replanLabel, grantLabel, denyLabel]

section

variable (h : KernelInv s) (hfresh : op.Fresh s)
include h hfresh

theorem Op.exec_frame (hop : op.isReconcile = false)
    (hF : s.fleets.get f = some F) (hterm : fleetIsLive F = false) :
    FleetFrame f s (op.exec s) := by
  refine ((exec_steps h hfresh).invariant (P := fun t => KernelInv t ∧ FleetFrame f s t)
    (fun l t t' hl he ih => ?_) ⟨h, .refl f s⟩).2
  obtain ⟨ht, hframe⟩ := ih
  refine ⟨ht.effect he, hframe.trans (he.frame_of_terminal ht ?_ hterm ?_)⟩
  · rw [hframe.fleet, hF]
  · rintro rfl
    exact not_touches_retire hop f hl

theorem Op.exec_frame_of_drained (hd : Drained f s) :
    FleetFrame f s (op.exec s) := by
  refine ((exec_steps h hfresh).invariant (P := fun t => KernelInv t ∧ FleetFrame f s t)
    (fun l t t' _ he ih => ?_) ⟨h, .refl f s⟩).2
  exact ⟨ih.1.effect he, ih.2.trans ((hd.of_frame ih.2).frame ih.1 he)⟩

theorem Op.exec_terminal (ht : ∃ F, s.fleets.get f = some F ∧ fleetIsLive F = false) :
    ∃ F, (op.exec s).fleets.get f = some F ∧ fleetIsLive F = false := by
  refine ((exec_steps h hfresh).invariant
    (P := fun t => KernelInv t ∧ ∃ F, t.fleets.get f = some F ∧ fleetIsLive F = false)
    (fun l t t' _ he ih => ?_) ⟨h, ht⟩).2
  obtain ⟨hinv, F, hF, hterm⟩ := ih
  obtain ⟨F', hF', hst⟩ := he.terminal hinv hF hterm
  exact ⟨hinv.effect he, F', hF', (fleetIsLive_congr hst).trans hterm⟩

end

/-- **Recovery drains a terminal fleet.** -/
theorem drained_reconcile (h : KernelInv s) (n o : UInt64)
    (ht : ∃ F, s.fleets.get f = some F ∧ fleetIsLive F = false) :
    Drained f ((reconcile n o).exec s) := by
  refine ⟨exec_terminal h nofun ht, ?_⟩
  obtain ⟨F, hF, hterm⟩ := ht
  obtain ⟨s', out, hok, hrec, hall⟩ := reconcile_spec h n o
  have hexec : (reconcile n o).exec s = s' := by
    apply exec_eq_of_perform
    rw [perform, hok]
    rfl
  rw [hexec]
  intro k C hC hf
  by_contra hfly
  -- a child in flight has a live attempt, which was not stranded
  have h' := h.steps hrec.steps
  obtain ⟨F', hF'⟩ := h'.childFleet k C hC
  rw [(h'.childRow k C hC).1] at hC
  obtain ⟨A, _, hl⟩ := h'.inFlight_attempt hF' hC (by simpa using hfly)
  refine not_stranded_after hrec hall hl.attempt ⟨hl.live, fun hlive => ?_⟩
  rw [hrec.fleets.live_eq, hl.fleetId_eq, hf, hF, Option.any_some, hterm] at hlive
  cases hlive

/-- **An operation appends events of live fleets only**, but for those a caller hands over. -/
theorem Op.appends_live (h : KernelInv s) (hfresh : op.Fresh s) {ev : OutboxEvent}
    (hev : op.appends s = some ev) :
    op = .appendEvent ev ∨ ∃ F, s.fleets.get ev.fleetId = some F ∧ fleetIsLive F = true := by
  -- The operations that append an event say of which fleet, and have found it live.
  cases op with
  | launchChild f c t n o l a =>
    simp only [appends] at hev
    split at hev
    · rename_i s' b hok
      cases hev
      rcases launchChild_spec h
        (attempts_get_of_fresh h (launchChild_safe hok) (hfresh a rfl)) hok with
        ⟨-, hout⟩ | ⟨-, F, C, _, _, _, _, _, rfl, -, -, hcell, hm, -⟩
      · exact absurd rfl (hout b)
      · rcases hm.live_or_retire with hlive | ⟨hk, -⟩
        · exact .inr ⟨F, hcell.fleet, hlive⟩
        · cases hk
    · cases hev
  | completeChild =>
    simp only [appends] at hev
    split at hev
    · rename_i s' hok
      cases hev
      rcases completeChild_spec h hok with
        ⟨-, hout⟩ | ⟨-, F, C, A, _, _, _, _, _, hf, -⟩
      · cases hout
      · obtain rfl := hf.fleetId_eq
        exact .inr ⟨F, hf.fleet, hf.live⟩
    · cases hev
  | recordEscalation =>
    simp only [appends] at hev
    split at hev
    · rename_i s' hok
      cases hev
      rcases recordEscalation_spec h hok with
        ⟨-, hout⟩ | ⟨-, F, C, A, _, _, _, _, _, hf, -⟩
      · cases hout
      · obtain rfl := hf.fleetId_eq
        exact .inr ⟨F, hf.fleet, hf.live⟩
    · cases hev
  | denyEscalation =>
    simp only [appends] at hev
    split at hev
    · rename_i s' b hok
      cases hev
      rcases denyEscalation_spec h hok with ⟨-, hout⟩ | ⟨-, F, C, _, _, _, hd, -⟩
      · cases hout
      · obtain rfl := hd.fleetId_eq
        exact .inr ⟨F, hd.fleet, hd.live⟩
    · cases hev
  | appendEvent =>
    simp only [appends] at hev
    split at hev
    · cases hev
      exact .inl rfl
    · cases hev
  | _ => cases hev

/-! ## Whole runs -/

/-- An event of the fleet that was not there, up to its claim, was handed over by a caller. -/
def NewEventsHanded (f : String) (s s' : FleetKernelStore) (ops : List Op) : Prop :=
  ∀ k ev, s'.outbox.get k = some ev → ev.fleetId = f →
    (∃ ev₀, s.outbox.get k = some ev₀ ∧ ev₀.body = ev.body) ∨
      ∃ ev₀, Op.appendEvent ev₀ ∈ ops ∧ ev₀.body = ev.body

theorem fleetId_of_body {ev ev' : OutboxEvent} (h : ev.body = ev'.body) :
    ev.fleetId = ev'.fleetId := by
  have hbody := congrArg OutboxEvent.fleetId h
  exact hbody

theorem terminal_run {ops : List Op} (h : KernelInv s)
    (hg : Guarded exec (fun s op => op.Fresh s) s ops)
    (hops : ∀ op ∈ ops, op.isReconcile = false) (hF : s.fleets.get f = some F)
    (hterm : fleetIsLive F = false) :
    FleetFrame f s (runSteps exec s ops) ∧ NewEventsHanded f s (runSteps exec s ops) ops := by
  induction ops generalizing s with
  | nil => exact ⟨.refl f s, fun k ev hev _ => .inl ⟨ev, hev, rfl⟩⟩
  | cons op ops ih =>
    have hframe := exec_frame h hg.1 (hops op List.mem_cons_self) hF hterm
    obtain ⟨hrest, hevents⟩ := ih (exec_inv h hg.1) hg.2
      (fun o ho => hops o (List.mem_cons_of_mem _ ho)) (by rw [hframe.fleet, hF])
    refine ⟨hframe.trans hrest, fun k ev hev hfid => ?_⟩
    rcases hevents k ev hev hfid with ⟨ev₁, hev₁, hb₁⟩ | ⟨ev₁, hmem, hb₁⟩
    · rcases (outboxStep h hg.1).mem k ev₁ hev₁ with ⟨ev₀, hev₀, hb₀⟩ | ⟨ev₀, happ, hb₀⟩
      · exact .inl ⟨ev₀, hev₀, hb₀.trans hb₁⟩
      · -- the call appended it: it was handed over, since the fleet is not live
        rcases appends_live h hg.1 happ with rfl | ⟨G, hG, hlive⟩
        · exact .inr ⟨ev₀, List.mem_cons_self, hb₀.trans hb₁⟩
        · rw [fleetId_of_body (hb₀.trans hb₁), hfid, hF] at hG
          cases hG
          rw [hterm] at hlive
          cases hlive
    · exact .inr ⟨ev₁, List.mem_cons_of_mem _ hmem, hb₁⟩

/-- **The terminal fence.** Once a fleet is complete, failed or cancelled, every later sequence of
calls without a recovery leaves its row with its budget, its plan, its children and its attempts
unchanged, and every event for it that was not there before was handed to `append_event` by a
caller. After any later recovery the fleet has no live attempt and nothing reserved, and whatever
calls follow, nothing of it changes again. -/
theorem terminal_fence {ops : List Op} (hd : MintsDistinct ops) :
    ∀ pre post f F, ops = pre ++ post → (run pre).fleets.get f = some F →
      F.status = .complete ∨ F.status = .failed ∨ F.status = .cancelled →
    ((∀ op ∈ post, op.isReconcile = false) →
      FleetFrame f (run pre) (run ops) ∧ NewEventsHanded f (run pre) (run ops) post) ∧
    ∀ mid n o rest, post = mid ++ .reconcile n o :: rest →
      ((∀ k A, (run (pre ++ mid ++ [.reconcile n o])).attempts.get k = some A → A.fleetId = f →
        A.status.isLive = false) ∧
      ∀ F', (run (pre ++ mid ++ [.reconcile n o])).fleets.get f = some F' →
        F'.budget.tokensReserved = 0) ∧
      FleetFrame f (run (pre ++ mid ++ [.reconcile n o])) (run ops) := by
  rintro pre post f F rfl hF hst
  have hterm := fleetIsLive_eq_false.mpr hst
  obtain ⟨hpre, hpost⟩ := (guarded_append ..).mp (guarded_fresh hd)
  have hinv := run_inv (mintsDistinct_of_append hd)
  constructor
  · intro hops
    rw [run_append]
    exact terminal_run hinv hpost hops hF hterm
  · rintro mid n o rest rfl
    obtain ⟨hmid, -, hrest⟩ := (guarded_append ..).mp hpost
    -- up to the recovery the fleet stays terminal; the recovery drains it
    obtain ⟨hinv₁, hterm₁⟩ := hmid.invariant
      (P := fun t => KernelInv t ∧ ∃ F, t.fleets.get f = some F ∧ fleetIsLive F = false)
      (fun _ _ ht hfresh => ⟨exec_inv ht.1 hfresh, exec_terminal ht.1 hfresh ht.2⟩)
      ⟨hinv, F, hF, hterm⟩
    have hrun : run (pre ++ mid ++ [.reconcile n o]) =
        (reconcile n o).exec (runSteps exec (run pre) mid) := by
      rw [run, runSteps_snoc, runSteps_append]
      rfl
    have hall : run (pre ++ (mid ++ .reconcile n o :: rest)) =
        runSteps exec (run (pre ++ mid ++ [.reconcile n o])) rest := by
      rw [hrun, run, runSteps_append, runSteps_append]
      rfl
    have hinv₂ : KernelInv ((reconcile n o).exec _) := exec_inv hinv₁ nofun
    have hdrained := drained_reconcile hinv₁ n o hterm₁
    rw [hall, hrun]
    refine ⟨hdrained.released hinv₂, ?_⟩
    refine (hrest.invariant (P := fun t => KernelInv t ∧ FleetFrame f _ t)
      (fun _ _ ht hfresh => ⟨exec_inv ht.1 hfresh, ht.2.trans
        (exec_frame_of_drained ht.1 hfresh (hdrained.of_frame ht.2))⟩)
      ⟨hinv₂, .refl f _⟩).2

/-- A fleet that is cancelled while one of its children runs. -/
def cancelledInFlight : List Op :=
  [.createFleet "f" "k" none "p" 100 false 0, .addChild "f" "c" [] 0,
    .launchChild "f" "c" 10 0 1 5 "a" "e", .markRunning "c" "a", .cancelFleet "f" 1]

/-- The late completion changes nothing, and recovery releases the reservation. -/
theorem terminal_fence_cancelledInFlight :
    ((run cancelledInFlight).fleets.get "f").map (fun F => (F.status, F.budget.tokensReserved)) =
      some (.cancelled, 10) ∧
    ∀ F', (run (cancelledInFlight ++ [] ++ [.reconcile 2 2])).fleets.get "f" = some F' →
      F'.budget.tokensReserved = 0 := by
  refine ⟨by decide, ?_⟩
  cases hF : (run cancelledInFlight).fleets.get "f" with
  | none => exact absurd hF (by decide)
  | some F =>
    have hst : ((run cancelledInFlight).fleets.get "f").map (·.status) = some .cancelled := by
      decide
    rw [hF] at hst
    have hd : MintsDistinct (cancelledInFlight ++ [.reconcile 2 2]) := by decide
    have hfence :=
      terminal_fence hd cancelledInFlight [.reconcile 2 2] "f" F rfl hF
        (.inr (.inr (Option.some.inj hst)))
    exact (hfence.2 [] 2 2 [] rfl).1.2

/-- The completion event a caller hands over for the cancelled fleet. -/
def handedCompletion : OutboxEvent := outboxEvent .childDone "x" "f" (some "c") (some "a")

/-- The fence does not extend to `append_event`: it adds a completion event for a cancelled
fleet. -/
theorem append_event_not_fenced :
    ((run cancelledInFlight).fleets.get "f").map (·.status) = some .cancelled ∧
    (run cancelledInFlight).outbox.values.map (·.kind) = [.childLaunching] ∧
    (run (cancelledInFlight ++ [.appendEvent handedCompletion])).outbox.values.map
      (fun ev => (ev.fleetId, ev.kind)) = [("f", .childLaunching), ("f", .childDone)] := by
  decide

end Octos.Fleet
