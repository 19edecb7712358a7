import Octos.Fleet.Conservation

/-!
# Escalation episodes

A child whose worker escalates is blocked until the operator decides: the request is granted, it is
denied, or the plan is replaced. The three decisions are guarded differently, a grant by the status
and the revision, a denial by the status, a replan by the revision. Each of them ends the episode
and moves the revision of the plan, so of any number of racing decisions one takes effect, and
those that come late find the child unblocked or the revision gone.

## Main results

* `Op.decision_ends`: a decision that takes effect ends the episode and moves the revision
* `escalation_decided_once`: episodes are decided once
-/

namespace Octos.Fleet

open FleetKernelStore Op Table

variable {s s' : FleetKernelStore} {f c : String}

/-! ## Decisions -/

def Blocked (s : FleetKernelStore) (f c : String) : Prop :=
  ∃ C, s.children.get (childKey f c) = some C ∧ C.status = .blocked

/-- The call is a decision on the child: a grant or a denial for it, or a replan of its fleet. -/
def Op.decides (f c : String) : Op → Bool
  | .setTaskGrant f' _ c' _ _ => f' = f ∧ c' = c
  | .denyEscalation f' c' _ _ _ => f' = f ∧ c' = c
  | .replan f' _ _ _ => f' = f
  | _ => false

def Op.isReplan : Op → Bool
  | .replan _ _ _ _ => true
  | _ => false

/-- The decision replies that it took effect. -/
def Op.takesEffect (s : FleetKernelStore) : Op → Bool
  | .setTaskGrant f r t g n =>
    match s.setTaskGrant f r t g n with
    | .ok (_, .mutated _) => true
    | _ => false
  | .denyEscalation f c r n e =>
    match s.denyEscalation f c r n e with
    | .ok (_, ⟨.completed, _⟩) => true
    | _ => false
  | .replan f r p n =>
    match s.replan f r p n with
    | .ok (_, .mutated _) => true
    | _ => false
  | _ => false

/-- The decisions on the child that took effect along the run, in order. -/
def decisions (f c : String) (s : FleetKernelStore) (ops : List Op) : List Op :=
  outputs exec (fun s op => if op.decides f c && op.takesEffect s then some op else none) s ops

/-- A granted child is ready, with the grant in the plan. -/
def Granted (s : FleetKernelStore) (f c : String) (grant : WorkerGrant) : Prop :=
  (∃ C, s.children.get (childKey f c) = some C ∧ C.status = .ready) ∧
    ∃ P t, s.plans.get f = some P ∧ P.tasks.find? (·.taskId = c) = some t ∧ t.grant = grant

/-- A denied child is failed, with the tasks of the plan and their grants as they were. -/
def Denied (s s' : FleetKernelStore) (f c : String) : Prop :=
  (∃ C, s'.children.get (childKey f c) = some C ∧ C.status = .failed) ∧
    (s'.plans.get f).map (·.tasks) = (s.plans.get f).map (·.tasks)

/-- The revision of the fleet's plan, if it has one, moved up. -/
def RevisionMoved (s s' : FleetKernelStore) (f : String) : Prop :=
  ∀ P, s.plans.get f = some P →
    ∃ P', s'.plans.get f = some P' ∧ P.revision.toNat < P'.revision.toNat

theorem not_blocked_of_get {C : FleetChildRecord} (hC : s.children.get (childKey f c) = some C)
    (hst : C.status ≠ .blocked) : ¬ Blocked s f c := by
  rintro ⟨C₀, hC₀, hblocked⟩
  cases hC.symm.trans hC₀
  exact hst hblocked

theorem find?_updateTask {taskId : String} {g : PlanTask → PlanTask}
    (hg : ∀ t, (g t).taskId = t.taskId) {tasks : List PlanTask}
    (h : tasks.any (·.taskId = taskId) = true) :
    ∃ t, (updateTask taskId g tasks).find? (·.taskId = taskId) = some (g t) := by
  induction tasks with
  | nil => cases h
  | cons t ts ih =>
    by_cases ht : t.taskId = taskId
    · exact ⟨t, by simp [updateTask, ht, hg]⟩
    · obtain ⟨u, hu⟩ := ih (by simpa [ht] using h)
      exact ⟨u, by simpa [updateTask, ht] using hu⟩

/-! ## What each decision does -/

/-- The decision changed nothing, or it took effect: it found `found`, ended the episode of the
child, moved the revision and left `left`. -/
def Op.Decides (s : FleetKernelStore) (f c : String) (op : Op) (found left : Prop) : Prop :=
  (op.takesEffect s = false ∧ op.exec s = s) ∨
    (op.takesEffect s = true ∧ found ∧ ¬ Blocked (op.exec s) f c ∧
      RevisionMoved s (op.exec s) f ∧ left)

theorem setTaskGrant_decision (h : KernelInv s) (r : UInt64) (g : WorkerGrant) (n : UInt64) :
    let op := setTaskGrant f r c g n
    op.Decides s f c (Blocked s f c) (Granted (op.exec s) f c g) := by
  simp only [Op.Decides, takesEffect, exec, perform]
  cases hok : s.setTaskGrant f r c g n with
  | error e => exact .inl ⟨rfl, rfl⟩
  | ok p =>
    obtain ⟨s', out⟩ := p
    rcases setTaskGrant_spec h hok with
      ⟨rfl, hout⟩ | ⟨F, P, C, newRev, rfl, hd, hP, -, hnew, htask, rfl⟩
    · cases out with
      | mutated b => exact absurd rfl (hout b)
      | _ => exact .inl ⟨rfl, rfl⟩
    · obtain ⟨rfl, rfl⟩ := And.intro hd.fleetId_eq hd.childId_eq
      obtain ⟨t, ht⟩ := find?_updateTask (g := fun t => { t with grant := g }) (fun _ => rfl) htask
      refine .inr ⟨rfl, ⟨C, hd.child, hd.blocked⟩, ?_, ?_, ?_, ?_⟩
      · exact not_blocked_of_get (get_insert_self ..) (by rintro ⟨⟩)
      · intro P₀ hP₀
        cases hP.symm.trans hP₀
        refine ⟨_, get_insert_self .., ?_⟩
        change P.revision.toNat < newRev.toNat
        omega
      · exact ⟨_, get_insert_self .., rfl⟩
      · exact ⟨_, _, get_insert_self .., ht, rfl⟩

theorem denyEscalation_decision (h : KernelInv s) (r : String) (n : UInt64) (e : String) :
    let op := denyEscalation f c r n e
    op.Decides s f c (Blocked s f c) (Denied s (op.exec s) f c) := by
  simp only [Op.Decides, takesEffect, exec, perform]
  cases hok : s.denyEscalation f c r n e with
  | error err => exact .inl ⟨rfl, rfl⟩
  | ok p =>
    obtain ⟨s', settled, b⟩ := p
    rcases denyEscalation_spec h hok with
      ⟨rfl, hout⟩ | ⟨hout, F, C, plans, outbox, seq, hd, hplans, -, rfl⟩
    · cases hout
      exact .inl ⟨rfl, rfl⟩
    · cases hout
      obtain ⟨rfl, rfl⟩ := And.intro hd.fleetId_eq hd.childId_eq
      refine .inr ⟨rfl, ⟨C, hd.child, hd.blocked⟩, ?_, ?_, ?_, ?_⟩
      · exact not_blocked_of_get (get_insert_self ..) (by rintro ⟨⟩)
      · intro P₀ hP₀
        rcases hplans with ⟨hnone, -⟩ | ⟨P, newRev, hP, hnew, rfl⟩
        · rw [hnone] at hP₀
          cases hP₀
        · obtain rfl := Option.some.inj (hP.symm.trans hP₀)
          refine ⟨_, get_insert_self .., ?_⟩
          change P.revision.toNat < newRev.toNat
          omega
      · exact ⟨_, get_insert_self .., rfl⟩
      · rcases hplans with ⟨-, rfl⟩ | ⟨P, newRev, hP, -, rfl⟩
        · rfl
        · change ((s.plans.insert C.fleetId _).get C.fleetId).map _ = _
          rw [get_insert_self, hP]
          rfl

theorem replan_decision (h : KernelInv s) (c : String) (r : UInt64) (p : DurablePlan) (n : UInt64) :
    Op.Decides s f c (.replan f r p n) (∃ P, s.plans.get f = some P ∧ P.revision = r) True := by
  simp only [Op.Decides, takesEffect, exec, perform]
  cases hok : s.replan f r p n with
  | error e => exact .inl ⟨rfl, rfl⟩
  | ok q =>
    obtain ⟨s', out⟩ := q
    rcases replan_spec h hok with ⟨rfl, hout⟩ | ⟨F, P, newRev, newGen, succ, rfl, hrev, hr, -⟩
    · cases out with
      | mutated b => exact absurd rfl (hout b)
      | _ => exact .inl ⟨rfl, rfl⟩
    · refine .inr ⟨rfl, ⟨P, hr.plan, hrev⟩, ?_, ?_, trivial⟩
      · -- a kept child is restarted or succeeded, a new one is ready or planned
        rintro ⟨C', hC', hblocked⟩
        cases hC : s.children.get (childKey f c) with
        | some C =>
          cases (hr.kept c C hC).symm.trans hC'
          rcases replanChild_cases p.tasks succ newGen n C.status.inFlight C with
            ⟨-, hst, -⟩ | ⟨hst | hst | hst, -⟩ <;>
          · rw [hst] at hblocked
            cases hblocked
        | none =>
          obtain ⟨t, -, -, rfl⟩ := hr.added c hC C' hC'
          rcases readiness_cases succ t.deps with hst | hst <;>
          · rw [hst] at hblocked
            cases hblocked
      · intro P₀ hP₀
        cases hr.plan.symm.trans hP₀
        refine ⟨_, hr.plan', ?_⟩
        have hrevision := hr.revision
        change P.revision.toNat < newRev.toNat
        omega

/-- **A decision that takes effect ends the episode and moves the revision; one that does not
changes nothing.** -/
theorem Op.decision_ends (h : KernelInv s) {op : Op} (hop : op.decides f c = true) :
    op.Decides s f c (op.isReplan = false → Blocked s f c) True := by
  cases op with
  | setTaskGrant f' r c' g n =>
    obtain ⟨rfl, rfl⟩ : f' = f ∧ c' = c := by simpa [decides] using hop
    exact (setTaskGrant_decision h r g n).imp_right fun ⟨ht, hb, hnb, hrev, _⟩ =>
      ⟨ht, fun _ => hb, hnb, hrev, trivial⟩
  | denyEscalation f' c' r n e =>
    obtain ⟨rfl, rfl⟩ : f' = f ∧ c' = c := by simpa [decides] using hop
    exact (denyEscalation_decision h r n e).imp_right fun ⟨ht, hb, hnb, hrev, _⟩ =>
      ⟨ht, fun _ => hb, hnb, hrev, trivial⟩
  | replan f' r p n =>
    obtain rfl : f' = f := by simpa [decides] using hop
    exact (replan_decision h c r p n).imp_right fun ⟨ht, _, hnb, hrev, _⟩ =>
      ⟨ht, nofun, hnb, hrev, trivial⟩
  | _ => cases hop

/-! ## Revisions -/

variable {P : DurablePlan}

theorem Effect.revision_le {l : Label} (he : Effect l s s') (hP : s.plans.get f = some P) :
    ∃ P', s'.plans.get f = some P' ∧ P.revision.toNat ≤ P'.revision.toNat := by
  cases he with
  | @newPlan _ F Q _ _ _ hrev =>
    by_cases hf : f = Q.fleetId
    · subst hf
      exact ⟨Q, get_insert_self .., (hrev P hP).le⟩
    · exact ⟨P, by rw [← hP]; exact get_insert_of_ne _ _ hf, le_rfl⟩
  | @editPlan _ F Q Q' _ _ hQ _ hrev _ =>
    by_cases hf : f = Q'.fleetId
    · subst hf
      cases hQ.symm.trans hP
      exact ⟨Q', get_insert_self .., hrev.le⟩
    · exact ⟨P, by rw [← hP]; exact get_insert_of_ne _ _ hf, le_rfl⟩
  | _ => exact ⟨P, hP, le_rfl⟩

variable {ops : List Op}

section

variable (h : KernelInv s) (hg : Guarded exec (fun s op => op.Fresh s) s ops)
include h hg

theorem revision_le_run (hP : s.plans.get f = some P) :
    ∃ P', (runSteps exec s ops).plans.get f = some P' ∧ P.revision.toNat ≤ P'.revision.toNat := by
  refine (hg.invariant (P := fun t => KernelInv t ∧
    ∃ P', t.plans.get f = some P' ∧ P.revision.toNat ≤ P'.revision.toNat)
    (fun t op ht hfresh => ⟨exec_inv ht.1 hfresh, ?_⟩) ⟨h, P, hP, le_rfl⟩).2
  refine (exec_steps ht.1 hfresh).invariant
    (P := fun t => ∃ P', t.plans.get f = some P' ∧ P.revision.toNat ≤ P'.revision.toNat)
    (fun _ _ _ _ he ih => ?_) ht.2
  obtain ⟨P₁, hP₁, hle₁⟩ := ih
  obtain ⟨P₂, hP₂, hle₂⟩ := he.revision_le hP₁
  exact ⟨P₂, hP₂, hle₁.trans hle₂⟩

/-! ## Episodes -/

theorem decisions_eq_nil
    (hb : ∀ m, m <+: ops → Blocked (runSteps exec s m) f c) : decisions f c s ops = [] := by
  induction ops generalizing s with
  | nil => rfl
  | cons op ops ih =>
    have hrest : decisions f c (op.exec s) ops = [] := by
      refine ih (exec_inv h hg.1) hg.2 fun m hm => ?_
      exact hb (op :: m) (List.cons_prefix_cons.mpr ⟨rfl, hm⟩)
    have hone : (op.decides f c && op.takesEffect s) = false := by
      by_contra htook
      rw [Bool.not_eq_false, Bool.and_eq_true] at htook
      rcases decision_ends h htook.1 with ⟨hno, -⟩ | ⟨-, -, hnb, -⟩
      · rw [hno] at htook
        cases htook.2
      · exact hnb (hb [op] ⟨ops, rfl⟩)
    unfold decisions at hrest ⊢
    rw [outputs, hrest, hone]
    rfl

end

/-- **Escalation episodes are decided once.** In every state a run with distinct minted ids
reaches, a child is blocked exactly when it has a pending escalation. While a child is blocked, up
to and including the call that ends this, at most one grant, denial or replan takes effect. A
decision that takes effect ends the episode, and if it is a grant or a denial it found the child
blocked; one that does not, changes no table. A replan at a revision the plan had before a decision
took effect never takes effect after it. A granted child is ready with the new grant in the plan, a
denied one is failed with its old grant. -/
theorem escalation_decided_once {ops : List Op} (hd : MintsDistinct ops) (f c : String) :
    (∀ k C, (run ops).children.get k = some C →
      (C.status = .blocked ↔ C.pendingEscalation.isSome)) ∧
    (∀ pre mid op post, ops = pre ++ (mid ++ op :: post) →
      (∀ m, m <+: mid → Blocked (run (pre ++ m)) f c) →
      (decisions f c (run pre) (mid ++ [op])).length ≤ 1) ∧
    ∀ pre op post, ops = pre ++ op :: post → op.decides f c = true →
      (op.takesEffect (run pre) = false → run (pre ++ [op]) = run pre) ∧
      (op.takesEffect (run pre) = true →
        ¬ Blocked (run (pre ++ [op])) f c ∧ (op.isReplan = false → Blocked (run pre) f c) ∧
        ∀ pre₀ pre₁ P, pre = pre₀ ++ pre₁ → (run pre₀).plans.get f = some P →
          ∀ mid p n post', post = mid ++ .replan f P.revision p n :: post' →
            takesEffect (run (pre ++ [op] ++ mid)) (.replan f P.revision p n) = false) ∧
      (∀ r g n, op = .setTaskGrant f r c g n → op.takesEffect (run pre) = true →
        Granted (run (pre ++ [op])) f c g) ∧
      ∀ r n e, op = .denyEscalation f c r n e → op.takesEffect (run pre) = true →
        Denied (run pre) (run (pre ++ [op])) f c := by
  refine ⟨(run_inv hd).escalation, ?_, ?_⟩
  · rintro pre mid op post rfl hblocked
    obtain ⟨hpre, hrest⟩ := (guarded_append ..).mp (guarded_fresh hd)
    obtain ⟨hmid, -⟩ := (guarded_append ..).mp hrest
    have hinv := run_inv (mintsDistinct_of_append hd)
    have hnil : decisions f c (run pre) mid = [] := by
      refine decisions_eq_nil hinv hmid fun m hm => ?_
      rw [← run_append]
      exact hblocked m hm
    unfold decisions at hnil ⊢
    rw [outputs_append, hnil, List.nil_append]
    simp only [outputs, List.append_nil]
    split <;> simp
  · rintro pre op post rfl hop
    obtain ⟨hpre, hfresh, hpost⟩ := (guarded_append ..).mp (guarded_fresh hd)
    have hinv := run_inv (mintsDistinct_of_append hd)
    rw [run_snoc]
    refine ⟨fun hno => ?_, fun htook => ?_, ?_, ?_⟩
    · rcases decision_ends hinv hop with ⟨-, hsame⟩ | ⟨htook, -⟩
      · exact hsame
      · rw [hno] at htook
        cases htook
    · rcases decision_ends hinv hop with ⟨hno, -⟩ | ⟨-, hb, hnb, hmoved, -⟩
      · rw [hno] at htook
        cases htook
      refine ⟨hnb, hb, ?_⟩
      rintro pre₀ pre₁ P rfl hP mid p n post' rfl
      -- the revision has moved past the one the plan had, and never falls again
      obtain ⟨hpre₀, hpre₁⟩ := (guarded_append ..).mp hpre
      have hinv₀ := run_inv (mintsDistinct_of_append (mintsDistinct_of_append hd))
      obtain ⟨P₁, hP₁, hle₁⟩ := revision_le_run hinv₀ hpre₁ hP
      rw [← run_append] at hP₁
      obtain ⟨P₂, hP₂, hlt⟩ := hmoved P₁ hP₁
      have hinv₂ := exec_inv hinv hfresh
      obtain ⟨hmid, -⟩ := (guarded_append ..).mp hpost
      obtain ⟨P₃, hP₃, hle₃⟩ := revision_le_run hinv₂ hmid hP₂
      have hinv₃ := hmid.invariant (fun _ _ h hfresh => exec_inv h hfresh) hinv₂
      rw [run_append, run_snoc]
      rcases replan_decision hinv₃ c P.revision p n with ⟨hno, -⟩ | ⟨-, ⟨P₄, hP₄, hrev⟩, -⟩
      · exact hno
      · cases hP₄.symm.trans hP₃
        rw [hrev] at hle₃
        omega
    · rintro r g n rfl htook
      rcases setTaskGrant_decision hinv r g n with ⟨hno, -⟩ | ⟨-, -, -, -, hgranted⟩
      · rw [hno] at htook
        cases htook
      · exact hgranted
    · rintro r n e rfl htook
      rcases denyEscalation_decision hinv r n e with ⟨hno, -⟩ | ⟨-, -, -, -, hdenied⟩
      · rw [hno] at htook
        cases htook
      · exact hdenied

def wideGrant : WorkerGrant := { WorkerGrant.minimal with network := .full }

/-- A fleet of one task whose worker has asked for a wider grant. -/
def escalatedRun : List Op :=
  [.createFleet "f" "k" none "p" 100 false 0,
    .createPlan ⟨schemaVersion, "f", 0, "o", [⟨"c", "", "", [], [], .minimal⟩]⟩,
    .addChild "f" "c" [] 0, .launchChild "f" "c" 10 0 1 5 "a" "e", .markRunning "c" "a",
    .recordEscalation "f" "c" "a" ⟨wideGrant, "network"⟩ 3 1 2 "e"]

/-- The grant takes effect, and the racing denial changes nothing. -/
theorem escalation_decided_once_escalatedRun :
    takesEffect (run escalatedRun) (.setTaskGrant "f" 0 "c" wideGrant 3) = true ∧
    Granted (run (escalatedRun ++ [.setTaskGrant "f" 0 "c" wideGrant 3])) "f" "c" wideGrant ∧
    run (escalatedRun ++ [.setTaskGrant "f" 0 "c" wideGrant 3] ++
      [.denyEscalation "f" "c" "no" 4 "e"]) =
      run (escalatedRun ++ [.setTaskGrant "f" 0 "c" wideGrant 3]) := by
  have hd : MintsDistinct (escalatedRun ++ [.setTaskGrant "f" 0 "c" wideGrant 3] ++
      [.denyEscalation "f" "c" "no" 4 "e"]) := by decide
  have honce := escalation_decided_once hd "f" "c"
  refine ⟨by decide, ?_, ?_⟩
  · exact (honce.2.2 escalatedRun _ _ rfl (by decide)).2.2.1 0 wideGrant 3 rfl (by decide)
  · exact (honce.2.2 (escalatedRun ++ [.setTaskGrant "f" 0 "c" wideGrant 3]) _ _ rfl
      (by decide)).1 (by decide)

end Octos.Fleet
