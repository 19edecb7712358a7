import Octos.Fleet.DependencySafety
import Octos.Fleet.OutboxProtocol

/-!
# Progress

A fleet whose plan is not complete and whose children are all at rest has something to launch: in
a valid graph some unfinished task has only finished dependencies, and on a sound board its child
is planned or ready. The readiness sweep returns that child, and a launch accepts every child the
sweep returns when the budget admits it and none of the counters of the launch overflows.

## Main results

* `Board.Sound.exists_launchable`: some child of a resting, incomplete board is swept ready
* `launchChild_accepts`: when a launch is accepted
* `no_wedge`: progress in every state that the plan layer lets arise
-/

namespace Octos.Fleet

open Except FleetChildRecord FleetKernelStore List

variable {s s' : FleetKernelStore} {f : String}

/-! ## The readiness sweep -/

variable (succeeded : List String)

@[simp] theorem promote_childId (nowMs : UInt64) (C : FleetChildRecord) :
    (promote succeeded nowMs C).childId = C.childId := by
  unfold promote
  split_ifs <;> rfl

theorem foldl_resolveStep (nowMs : UInt64) (recs : List FleetChildRecord)
    (acc : Table String FleetChildRecord × List String) :
    recs.foldl (resolveStep f succeeded nowMs) acc =
      (acc.1.writeAll (fun C => childKey f C.childId) (promote succeeded nowMs)
          (recs.filter (·.promotable succeeded)),
        acc.2 ++ (recs.filter fun C => (promote succeeded nowMs C).launchable).map
          (·.childId)) := by
  induction recs generalizing acc with
  | nil => simp [Table.writeAll]
  | cons C recs ih =>
    rw [foldl_cons, ih]
    by_cases hp : C.promotable succeeded = true <;>
      by_cases hl : (promote succeeded nowMs C).launchable = true <;>
      simp [resolveStep, Table.writeAll, hp, hl]

def sweep (b : Board) (succeeded : List String) (nowMs : UInt64) : Board :=
  fun c => (b c).map (promote succeeded nowMs)

def sweptChildren (s : FleetKernelStore) (f : String) (nowMs : UInt64) :
    Table String FleetChildRecord :=
  s.children.writeAll (fun C => childKey f C.childId)
    (promote (succeededIds (s.fleetChildren f)) nowMs)
    ((s.fleetChildren f).filter (·.promotable (succeededIds (s.fleetChildren f))))

theorem get_sweptChildren (h : KernelInv s) (hsafe : keyComponentIsSafe f = true) (nowMs : UInt64)
    (c : String) : (sweptChildren s f nowMs).get (childKey f c) =
      sweep (s.board f) (succeededIds (s.fleetChildren f)) nowMs c := by
  change _ = (s.children.get (childKey f c)).map _
  unfold sweptChildren
  rcases Table.get_writeAll (fun C => childKey f C.childId)
    (promote (succeededIds (s.fleetChildren f)) nowMs) s.children
    ((s.fleetChildren f).filter (·.promotable (succeededIds (s.fleetChildren f))))
    (childKey f c) with ⟨C, hC, hk, hrow⟩ | ⟨hnone, hrow⟩
  · obtain ⟨-, hget⟩ := (mem_fleetChildren h).mp (mem_filter.mp hC).1
    rw [hk] at hget
    rw [hrow, hget, Option.map_some]
  · rw [hrow]
    cases hget : s.children.get (childKey f c) with
    | none => rfl
    | some C =>
      -- a row that was not rewritten is not promotable
      obtain ⟨hfid, hcid⟩ := h.child_ids hsafe hget
      have hmem : C ∈ s.fleetChildren f := (mem_fleetChildren h).mpr ⟨hfid, by rw [hcid, hget]⟩
      have hp : ¬ C.promotable (succeededIds (s.fleetChildren f)) = true := fun hp =>
        hnone C (mem_filter.mpr ⟨hmem, hp⟩) (by rw [hcid])
      rw [Option.map_some, promote, if_neg hp]

variable {F : FleetRecord}

/-- **The readiness sweep** of a live fleet promotes its children and returns the launchable ones;
the fleets and the outbox stay as they are. -/
theorem resolveAndCollectReady_spec (h : KernelInv s) (hF : s.fleets.get f = some F)
    (hlive : fleetIsLive F = true) (nowMs : UInt64) :
    ∃ s' ready, s.resolveAndCollectReady f nowMs = .ok (s', ready) ∧
      s'.fleets = s.fleets ∧ s'.outbox = s.outbox ∧
      s'.board f = sweep (s.board f) (succeededIds (s.fleetChildren f)) nowMs ∧
      ∀ c, c ∈ ready ↔ ∃ C, s'.board f c = some C ∧ C.launchable = true := by
  have hsafe := (h.fleetRow f F hF).2.1
  have hentry : ensureKeySafe [f] = .ok () := ensureKeySafe_eq_ok.mpr (by simpa using hsafe)
  have hl : s.fleetLive f = true := by
    rw [fleetLive, h.fleet_eq, hF]
    exact hlive
  have hboard : FleetKernelStore.board { s with children := sweptChildren s f nowMs } f =
      sweep (s.board f) (succeededIds (s.fleetChildren f)) nowMs :=
    funext fun c => get_sweptChildren h hsafe nowMs c
  refine ⟨{ s with children := sweptChildren s f nowMs },
    (((s.fleetChildren f).filter fun C =>
      (promote (succeededIds (s.fleetChildren f)) nowMs C).launchable).map
        (·.childId)).insertionSort (· ≤ ·), ?_, rfl, rfl, hboard, fun c => ?_⟩
  · unfold resolveAndCollectReady
    rw [hentry]
    change (if (!s.fleetLive f) = true then _ else _) = _
    rw [hl, foldl_resolveStep]
    rfl
  · rw [hboard, mem_insertionSort]
    simp only [mem_map, mem_filter, mem_fleetChildren h]
    constructor
    · rintro ⟨C, ⟨⟨-, hget⟩, hl⟩, rfl⟩
      exact ⟨_, congrArg (Option.map _) hget, hl⟩
    · rintro ⟨C', hC', hl⟩
      obtain ⟨C, hget, rfl⟩ := Option.map_eq_some_iff.mp hC'
      obtain ⟨hfid, hcid⟩ := h.child_ids hsafe hget
      exact ⟨C, ⟨⟨hfid, by rw [hcid]; exact hget⟩, hl⟩, hcid⟩

/-! ## A launchable child -/

variable {tasks : List PlanTask}

theorem ValidGraph.exists_minimal (h : ValidGraph tasks)
    {finished : String → Prop} (hopen : ∃ t ∈ tasks, ¬ finished t.taskId) :
    ∃ t ∈ tasks, ¬ finished t.taskId ∧ ∀ d ∈ t.deps, finished d := by
  obtain ⟨rank, hrank⟩ := h.acyclic
  obtain ⟨t₀, ht₀, hopen₀⟩ := hopen
  -- induction on the rank: an unfinished dependency has a smaller one
  induction hn : rank t₀.taskId using Nat.strong_induction_on generalizing t₀ with
  | _ n ih =>
    by_cases hall : ∀ d ∈ t₀.deps, finished d
    · exact ⟨t₀, ht₀, hopen₀, hall⟩
    · push Not at hall
      obtain ⟨d, hd, hdopen⟩ := hall
      obtain ⟨t, ht, rfl⟩ := mem_map.mp (h.deps_mem t₀ ht₀ d hd)
      exact ih (rank t.taskId) (hn ▸ hrank t₀ ht₀ t.taskId hd) t ht hdopen rfl

/-- **On a sound board that is at rest and not complete, some child is swept ready.** -/
theorem Board.Sound.exists_launchable {b : Board} (h : b.Sound tasks)
    {succeeded : List String} (hsucc : ∀ d, d ∈ succeeded ↔ b.Succeeded d)
    (hcur : ∀ c C, b c = some C → C.status = .planned ∨ C.status = .ready →
      C.currentAttemptId = none)
    (hidle : ∀ c C, b c = some C → C.status ∉ [.failed, .blocked, .launching, .running])
    (hopen : ∃ t ∈ tasks, ¬ b.Succeeded t.taskId) (nowMs : UInt64) :
    ∃ c C, sweep b succeeded nowMs c = some C ∧ C.launchable = true := by
  obtain ⟨t, ht, hopen, hdone⟩ := h.graph.exists_minimal hopen
  obtain ⟨C, hC, hdeps, hcan⟩ := h.covered t ht
  have hst : C.status = .planned ∨ C.status = .ready := by
    have hrest := hidle _ C hC
    have hns : C.status ≠ .succeeded := fun hs => hopen ⟨C, hC, hs⟩
    revert hrest hns hcan
    cases C.status <;> simp
  have hnone := hcur _ C hC hst
  refine ⟨t.taskId, promote succeeded nowMs C, by rw [sweep, hC]; rfl, ?_⟩
  unfold promote
  rcases hst with hst | hst
  · -- a planned child with its dependencies succeeded is promoted
    have hp : C.promotable succeeded = true := by
      simp only [promotable, hst, hnone, decide_true, Bool.true_and,
        all_eq_true, contains_iff_mem, hdeps]
      exact fun d hd => (hsucc d).mpr (hdone d hd)
    rw [if_pos hp]
    simp [launchable, hnone]
  · have hp : ¬ C.promotable succeeded = true := by simp [promotable, hst]
    rw [if_neg hp]
    simp [launchable, hst, hnone]

/-- **A launch is accepted** for a launchable child of a live fleet when the budget admits its
tokens and neither the lease's expiry, nor the child's count of attempts, nor the outbox
overflows. -/
theorem launchChild_accepts (h : KernelInv s) {C : FleetChildRecord} {c : String}
    (hF : s.fleets.get f = some F) (hlive : fleetIsLive F = true) (hC : s.board f c = some C)
    (hl : C.launchable = true) {projected now ttl : UInt64}
    (hadm : F.budget.admits projected = true) (hlease : now.toNat + ttl.toNat < 2 ^ 64)
    (hused : C.attemptsUsed.toNat + 1 < 2 ^ 32) {seq : UInt64}
    (hseq : nextSequence s.outbox = .ok seq) (epoch : UInt64) (a e : String) :
    ∃ s', s.launchChild f c projected now epoch ttl a e = .ok (s', .launched a) := by
  have hsafe := (h.fleetRow f F hF).2.1
  obtain ⟨hfid, hcid⟩ := h.child_ids hsafe hC
  have hentry : ensureKeySafe [f, c] = .ok () := by
    refine ensureKeySafe_eq_ok.mpr ?_
    have hc := (h.childRow _ C hC).2.1
    rw [hcid] at hc
    simp [hsafe, hc]
  simp only [launchable, Bool.and_eq_true, decide_eq_true_eq] at hl
  -- the three sums fit
  obtain ⟨reserved, hreserved⟩ : ∃ r, checkedAdd F.budget.tokensReserved projected = some r := by
    refine Option.ne_none_iff_exists'.mp fun hnone => ?_
    have := checkedAdd_eq_none.mp hnone
    have := (FleetBudget.admits_iff ..).mp hadm
    have := F.budget.tokenBudget.toNat_lt
    omega
  obtain ⟨expires, hexpires⟩ : ∃ x, checkedAdd now ttl = some x := by
    refine Option.ne_none_iff_exists'.mp fun hnone => ?_
    have := checkedAdd_eq_none.mp hnone
    omega
  obtain ⟨used, hused⟩ : ∃ u, checkedAdd32 C.attemptsUsed 1 = some u :=
    ⟨_, if_pos hused⟩
  have hget : s.children.get (childKey f c) = some C := hC
  unfold launchChild
  simp only [hentry, h.child_eq hsafe, hget, h.fleet_eq, hF, hl.1, hl.2, hlive, hadm, hreserved,
    hexpires, hused, hseq, appendOutbox, orError, bind, bind, pure, pure, ne_eq,
    not_true, if_false, Option.isSome_none, Bool.not_true, Bool.false_eq_true]
  exact ⟨_, rfl⟩

/-! ## Completion -/

theorem find?_snapshot (h : KernelInv s) (hsafe : keyComponentIsSafe f = true)
    {l : List FleetChildRecord}
    (hl : ∀ C, C ∈ l ↔ C.fleetId = f ∧ s.children.get (childKey f C.childId) = some C)
    (c : String) : l.find? (·.childId = c) = s.board f c := by
  cases hfind : l.find? (·.childId = c) with
  | none =>
    refine (Option.eq_none_iff_forall_not_mem.mpr fun C hC => ?_).symm
    obtain ⟨hfid, hcid⟩ := h.child_ids hsafe hC
    have hmem : C ∈ l := (hl C).mpr ⟨hfid, by rw [hcid]; exact hC⟩
    exact absurd hcid (by simpa using find?_eq_none.mp hfind C hmem)
  | some C =>
    obtain ⟨-, hget⟩ := (hl C).mp (mem_of_find?_eq_some hfind)
    have hcid : C.childId = c := by simpa using find?_some hfind
    rw [hcid] at hget
    exact hget.symm

theorem isComplete_eq (h : KernelInv s) (hF : s.fleets.get f = some F) {P : DurablePlan}
    (hP : s.plans.get f = some P) :
    isComplete s f =
      .ok (P.tasks.all fun t => (s.board f t.taskId).any (·.status = .succeeded)) := by
  have hsafe := (h.fleetRow f F hF).2.1
  have hentry : ensureKeySafe [f] = .ok () := ensureKeySafe_eq_ok.mpr (by simpa using hsafe)
  have hfind := find?_snapshot h hsafe (l := (s.children.values.filterMap fun r =>
      (decodeRow r).filter fun r => r.fleetId = f).insertionSort fun a b => a.childId ≤ b.childId)
    (fun C => by
      rw [mem_insertionSort, mem_filterMap]
      constructor
      · rintro ⟨D, hD, hC⟩
        obtain ⟨hdec, hfid⟩ := Option.filter_eq_some_iff.mp hC
        obtain ⟨-, rfl⟩ := decodeRow_eq_some.mp hdec
        obtain rfl := of_decide_eq_true hfid
        exact ⟨rfl, h.mem_children.mp hD⟩
      · rintro ⟨rfl, hget⟩
        refine ⟨C, h.mem_children.mpr hget, Option.filter_eq_some_iff.mpr ⟨?_, by simp⟩⟩
        exact decodeRow_eq_some.mpr ⟨(h.childRow _ C hget).2.2, rfl⟩)
  unfold isComplete loadSnapshot
  simp only [hentry, h.fleet_eq, hF, h.plan_eq, hP, bind, Except.bind, pure, Except.pure,
    Except.mapError, orError, hfind]

theorem mem_succeededIds (h : KernelInv s) (hsafe : keyComponentIsSafe f = true) (d : String) :
    d ∈ succeededIds (s.fleetChildren f) ↔ (s.board f).Succeeded d := by
  constructor
  · exact exists_of_mem_succeededIds h
  · rintro ⟨D, hD, hst⟩
    obtain ⟨hfid, hcid⟩ := h.child_ids hsafe hD
    refine mem_map.mpr ⟨D, mem_filter.mpr ⟨?_, by simpa using hst⟩, hcid⟩
    exact (mem_fleetChildren h).mpr ⟨hfid, by rw [hcid]; exact hD⟩

/-- **No wedge.** In every state of a live fleet that is created and edited through the plan layer,
if its plan is not complete and no child is failed, blocked or in flight, then the readiness sweep
returns a child, and every child it returns is accepted by a launch whose projected tokens the
budget admits, provided that the expiry of the lease, the child's count of attempts and the
sequence of the outbox stay in range. -/
theorem no_wedge {ops : List Op} (hist : PlannedThroughFleet f ops) (hd : MintsDistinct ops)
    {F : FleetRecord} (hF : (run ops).fleet f = some F) (hlive : fleetIsLive F = true)
    (hopen : isComplete (run ops) f = .ok false) (hidle : ∀ c C, (run ops).child f c = some C →
      C.status ∉ [.failed, .blocked, .launching, .running]) (nowMs : UInt64) :
    ∃ s' ready, (run ops).resolveAndCollectReady f nowMs = .ok (s', ready) ∧ ready ≠ [] ∧
      ∀ c ∈ ready, ∀ projected now epoch ttl a e, F.budget.admits projected = true →
        now.toNat + ttl.toNat < 2 ^ 64 →
        (∀ C, s'.child f c = some C → C.attemptsUsed.toNat + 1 < 2 ^ 32) →
        (appended ops).length + 1 < 2 ^ 64 →
        ∃ s'', s'.launchChild f c projected now epoch ttl a e = .ok (s'', .launched a) := by
  have h := run_inv hd
  rw [h.fleet_eq] at hF
  have hsafe := (h.fleetRow f F hF).2.1
  have hread := h.child_eq hsafe
  obtain ⟨P, hP, hsound⟩ := planSafe_history hist hd F hF hlive
  obtain ⟨s', ready, hok, hfleets, houtbox, hboard, hready⟩ :=
    resolveAndCollectReady_spec h hF hlive nowMs
  have h' : KernelInv s' := h.steps (resolveAndCollectReady_steps h hok)
  refine ⟨s', ready, hok, ?_, fun c hc projected now epoch ttl a e hadm hlease hused hseq => ?_⟩
  · -- an unfinished task of least rank is swept ready
    have hunfinished : ∃ t ∈ P.tasks, ¬ ((run ops).board f).Succeeded t.taskId := by
      rw [isComplete_eq h hF hP, ok.injEq, all_eq_false] at hopen
      obtain ⟨t, ht, hno⟩ := hopen
      refine ⟨t, ht, ?_⟩
      rintro ⟨C, hC, hst⟩
      simp [hC, hst] at hno
    have hcur : ∀ c C, (run ops).board f c = some C → C.status = .planned ∨ C.status = .ready →
        C.currentAttemptId = none := by
      intro c C hC hst
      refine Option.eq_none_iff_forall_not_mem.mpr fun a ha => ?_
      obtain ⟨A, -, -, hag⟩ := h.current _ C hC a ha
      rcases hst with hst | hst <;> rw [hst] at hag <;> cases hag
    obtain ⟨c, C, hC, hl⟩ := hsound.exists_launchable (mem_succeededIds h hsafe) hcur
      (fun c C hC => hidle c C ((hread c).trans hC)) hunfinished nowMs
    rw [← hboard] at hC
    exact ne_nil_of_mem ((hready c).mpr ⟨C, hC, hl⟩)
  · obtain ⟨C, hC, hl⟩ := (hready c).mp hc
    have hnext : nextSequence s'.outbox = .ok (seqAt (appended ops).length) := by
      rw [houtbox, (outboxBy_run hd).nextSequence_eq, if_pos hseq]
    rw [← hfleets] at hF
    exact launchChild_accepts h' hF hlive hC hl hadm hlease
      (hused C ((h'.child_eq hsafe c).trans hC)) hnext epoch a e

/-- After `a` has succeeded, the sweep returns `b`, which a launch within the budget takes. -/
theorem no_wedge_firstSucceeded :
    ∃ s' ready, (run firstSucceeded).resolveAndCollectReady "f" 4 = .ok (s', ready) ∧
      ready ≠ [] ∧ ready = ["b"] ∧
      ∃ s'', s'.launchChild "f" "b" 10 4 1 5 "y" "e" = .ok (s'', .launched "y") := by
  have hd : MintsDistinct firstSucceeded := by decide
  have hrows : ∀ p ∈ (run firstSucceeded).children.entries,
      p.2.status ∉ [.failed, .blocked, .launching, .running] := by decide
  have hidle : ∀ c C, (run firstSucceeded).child "f" c = some C →
      C.status ∉ [.failed, .blocked, .launching, .running] := by
    intro c C hC
    rw [(run_inv hd).child_eq (by decide)] at hC
    exact hrows _ (Table.mem_entries.mpr hC)
  cases hF : (run firstSucceeded).fleet "f" with
  | none => exact absurd hF (by decide)
  | some F =>
    have hfleet : ((run firstSucceeded).fleet "f").all (fun F =>
        fleetIsLive F && F.budget.admits 10) = true := by decide
    rw [hF, Option.all_some, Bool.and_eq_true] at hfleet
    obtain ⟨s', ready, hok, hne, hall⟩ :=
      no_wedge firstSucceeded_history hd hF hfleet.1 (by decide) hidle 4
    have hready : ((run firstSucceeded).resolveAndCollectReady "f" 4).map (·.2) = .ok ["b"] := by
      decide
    have hused : ((run firstSucceeded).resolveAndCollectReady "f" 4).map (fun p =>
        (p.1.child "f" "b").all fun C => C.attemptsUsed.toNat + 1 < 2 ^ 32) = .ok true := by
      decide
    rw [hok] at hready hused
    obtain rfl : ready = ["b"] := ok.inj hready
    have hused : (s'.child "f" "b").all (fun C => C.attemptsUsed.toNat + 1 < 2 ^ 32) = true :=
      ok.inj hused
    refine ⟨s', _, hok, hne, rfl, hall "b" mem_cons_self 10 4 1 5 "y" "e" hfleet.2
      (by decide) (fun C hC => ?_) (by decide)⟩
    rw [hC] at hused
    simpa using hused

/-- The readiness sweep returns `a`, and the budget admits its tokens, but a launch whose lease
would expire beyond the range of the clock fails. -/
theorem launch_lease_overflow :
    PlannedThroughFleet "f" [chainGenesis] ∧
    isComplete (run [chainGenesis]) "f" = .ok false ∧
    (∀ p ∈ (run [chainGenesis]).children.entries,
      p.2.status ∉ [.failed, .blocked, .launching, .running]) ∧
    ((run [chainGenesis]).resolveAndCollectReady "f" 0).map (·.2) = .ok ["a"] ∧
    ((run [chainGenesis]).fleet "f").any (fun F => fleetIsLive F && F.budget.admits 10) = true ∧
    ((run [chainGenesis]).resolveAndCollectReady "f" 0 >>= fun p =>
      p.1.launchChild "f" "a" 10 18446744073709551615 1 1 "x" "e").map (·.2) =
        .error (.leaseExpiryOverflow "a") := by
  exact ⟨chainGenesis_history, by decide, by decide, by decide, by decide, by decide⟩

end Octos.Fleet
