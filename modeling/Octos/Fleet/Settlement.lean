import Octos.Fleet.Conservation
import Octos.Fleet.Events

/-!
# Exactly-once settlement

Late and duplicate reports of workers race with replans, boots, grants and cancellations. Over a
whole run each attempt is settled at most once: a settled attempt never changes, a report that
comes for a settled attempt, from an older generation or from another epoch changes nothing, and
so the history of the settlements that took effect names no attempt twice. The committed tokens of
a fleet are the sum over this history, and the completion events are bounded by it.

## Main results

* `Effect.settled`: a settled attempt never changes
* `Op.exec_eq_of_late`: a late report changes nothing
* `exactly_once_settlement`: the three over whole runs
-/

namespace Octos.Fleet

open FleetKernelStore List Op OutboxEvent

variable {s s' : FleetKernelStore}

/-! ## Settled attempts stay -/

variable {k f c a e : String} {A : Attempt} {l : Label}

theorem Effect.settled (he : Effect l s s') (hA : s.attempts.get k = some A)
    (hset : A.status.isLive = false) : s'.attempts.get k = some A := by
  cases he with
  | @cell _ k₀ F F' C C' B B' hc hdeps hm =>
    rw [KernelInv.attempts_get_setCell, hA]
    -- the written attempt is fresh, or it was live
    rintro b' hb' rfl
    obtain ⟨hrow, -⟩ := hc.attempt b' hb'
    rw [← hm.cellStep.child.2.1, hA] at hrow
    rcases hm.cellStep.attempt with ⟨hn, -⟩ | ⟨hn, -⟩ | ⟨b, _, hb, -, hlive, -⟩
    · rw [hn] at hrow
      cases hrow
    · rw [hn] at hrow
      cases hrow
    · cases hb.symm.trans hrow.symm
      rw [hset] at hlive
      cases hlive
  | _ => exact hA

variable {op : Op}

theorem Op.exec_settled (h : KernelInv s) (hfresh : op.Fresh s)
    (hA : s.attempts.get k = some A) (hset : A.status.isLive = false) :
    (op.exec s).attempts.get k = some A :=
  (exec_steps h hfresh).invariant (P := fun t => t.attempts.get k = some A)
    (fun _ _ _ _ he ih => he.settled ih hset) hA

/-! ## Late reports -/

/-- The report of a worker: the child, the attempt, and the epoch it presents if it has to. -/
def Op.report : Op → Option (String × String × Option UInt64)
  | .markRunning c a => some (c, a, none)
  | .completeChild _ c a _ _ _ o _ _ => some (c, a, some o)
  | .recordEscalation _ c a _ _ o _ _ => some (c, a, some o)
  | _ => none

/-- The attempt is settled, of another generation than its fleet, or not of the epoch. -/
def Late (s : FleetKernelStore) (A : Attempt) (epoch : Option UInt64) : Prop :=
  A.status.isLive = false ∨
    (∃ F, s.fleets.get A.fleetId = some F ∧ A.generation ≠ F.generation) ∨
    ∃ o, epoch = some o ∧ A.lease.ownerEpoch ≠ o

variable {F F' : FleetRecord} {C C' : FleetChildRecord}

theorem FleetKernelStore.Fenced.not_late {o : UInt64} {B : Attempt} (hf : Fenced s f c a o F C A)
    (hB : s.attempts.get (attemptKey c a) = some B) : ¬ Late s B (some o) := by
  have hA := hf.attempt
  rw [hf.childId_eq, hf.attemptId_eq, hB] at hA
  cases hA
  rintro (hset | ⟨F₀, hF₀, hgen⟩ | ⟨_, ⟨rfl⟩, hepoch⟩)
  · rw [hf.running] at hset
    cases hset
  · rw [hf.owner.1, hf.fleet] at hF₀
    cases hF₀
    exact hgen hf.generation
  · exact hepoch hf.epoch

variable {t o : UInt64} {out : CompleteOutcome}

theorem FleetKernelStore.SettleStep.eq_of_late {k : MoveKind}
    (hs : SettleStep s k f c a e t o s' out) (hA : s.attempts.get (attemptKey c a) = some A)
    (hlate : Late s A (some o)) : s' = s := by
  rcases hs with ⟨hsame, -⟩ | ⟨-, F, C, A', _, _, _, _, _, hf, -⟩
  · exact hsame
  · exact absurd hlate (hf.not_late hA)

theorem Move.start_leased {A' : Attempt} (hm : Move .start F C (some A) F' C' (some A')) :
    A.status = .leased ∧ A'.fleetId = A.fleetId := by
  cases hm with
  | start _ _ _ hleased => exact ⟨hleased, rfl⟩
  | settle _ _ _ _ _ hk => cases hk
  | reclaim _ _ hk => split_ifs at hk

/-- **A late report changes nothing.** -/
theorem Op.exec_eq_of_late (h : KernelInv s) {o : Option UInt64}
    (hop : op.report = some (c, a, o)) (hA : s.attempts.get (attemptKey c a) = some A)
    (hlate : Late s A o) : op.exec s = s := by
  rcases op.exec_cases s with hsame | hp
  · exact hsame
  cases op with
  | markRunning =>
    cases hop
    obtain ⟨out, hok⟩ := map_fst_eq_ok.mp hp
    rcases markRunning_spec h hok with
      ⟨hsame, -⟩ | ⟨-, F, C, B, F', C', B', -, -, hB, hgen, hcell, hm, -⟩
    · exact hsame
    · -- the started attempt is leased, of the fleet's generation
      cases hB.symm.trans hA
      obtain ⟨hleased, hfid⟩ := hm.start_leased
      rcases hlate with hset | ⟨F₀, hF₀, hne⟩ | ⟨_, hno, -⟩
      · rw [hleased] at hset
        cases hset
      · have hF := hcell.fleet
        rw [← (hcell.attempt B' rfl).2.1, hfid] at hF
        cases hF.symm.trans hF₀
        exact absurd hgen hne
      · cases hno
  | completeChild =>
    cases hop
    obtain ⟨_, hok⟩ := map_fst_eq_ok.mp hp
    exact (completeChild_spec h hok).eq_of_late hA hlate
  | recordEscalation =>
    cases hop
    obtain ⟨_, hok⟩ := map_fst_eq_ok.mp hp
    exact (recordEscalation_spec h hok).eq_of_late hA hlate
  | _ => cases hop

/-! ## The settlements of a run -/

/-- A settlement that took effect: the fleet, the attempt and the tokens reported. -/
structure Settlement where
  fleetId : String
  attemptId : String
  actualTokens : UInt64
  deriving DecidableEq

/-- The settlement of the call, when it takes effect. -/
def Op.settles (s : FleetKernelStore) : Op → Option Settlement
  | .completeChild f c a v r t o n e =>
    match s.completeChild f c a v r t o n e with
    | .ok (_, .completed) => some ⟨f, a, t⟩
    | _ => none
  | .recordEscalation f c a r t o n e =>
    match s.recordEscalation f c a r t o n e with
    | .ok (_, .completed) => some ⟨f, a, t⟩
    | _ => none
  | _ => none

def settlements (ops : List Op) : List Settlement := outputs exec settles .empty ops

/-- The committed tokens of a fleet. -/
def FleetKernelStore.spent (s : FleetKernelStore) (f : String) : ℕ :=
  (s.fleets.get f).elim 0 fun F => F.budget.tokensCommitted.toNat

/-- The tokens a settlement commits of the fleet's budget. -/
def Settlement.spends (f : String) (S : Settlement) : ℕ :=
  if S.fleetId = f then S.actualTokens.toNat else 0

theorem spent_insert {G : FleetRecord} (hfl : s'.fleets = s.fleets.insert f G)
    (hc : G.budget.tokensCommitted.toNat = s.spent f) (g : String) : s'.spent g = s.spent g := by
  by_cases hg : g = f
  · subst hg
    rw [← hc, spent, hfl, Table.get_insert_self, Option.elim_some]
  · rw [spent, hfl, Table.get_insert_of_ne _ _ hg]
    rfl

theorem spent_eq (hF : s.fleets.get f = some F) : s.spent f = F.budget.tokensCommitted.toNat := by
  rw [spent, hF, Option.elim_some]

theorem Move.committed_eq {k : MoveKind} {A A' : Option Attempt} (hm : Move k F C A F' C' A')
    (hcomp : k ≠ .complete) (hesc : k ≠ .escalate) :
    F'.budget.tokensCommitted = F.budget.tokensCommitted := by
  cases hm with
  | settle _ _ _ _ _ hk =>
    cases hk with
    | complete => exact absurd rfl hcomp
    | escalate => exact absurd rfl hesc
  | _ => rfl

theorem Effect.spent_eq (he : Effect l s s')
    (hl : ∀ f, l ≠ .move f .complete ∧ l ≠ .move f .escalate) (g : String) :
    s'.spent g = s.spent g := by
  cases he with
  | newFleet hnone _ _ _ hcom =>
    refine spent_insert rfl ?_ g
    rw [hcom, spent, hnone]
    rfl
  | cancel now hF | bump generation now hF =>
    refine spent_insert rfl ?_ g
    exact (Octos.Fleet.spent_eq hF).symm
  | @cell _ k F F' C C' A A' hc _ hm =>
    refine spent_insert (G := F') rfl ?_ g
    rw [hm.committed_eq, hm.cellStep.child.1, Octos.Fleet.spent_eq hc.fleet]
    · rintro rfl
      exact (hl C.fleetId).1 rfl
    · rintro rfl
      exact (hl C.fleetId).2 rfl
  | _ => rfl

theorem FleetKernelStore.SettleStep.settles {k : MoveKind}
    (hs : SettleStep s k f c a e t o s' out) :
    (s' = s ∧ out = .superseded) ∨ (out = .completed ∧
      (∀ g, s'.spent g = s.spent g + (⟨f, a, t⟩ : Settlement).spends g) ∧
      (∃ A, s.attempts.get (attemptKey c a) = some A ∧ A.attemptId = a ∧ A.status.isLive = true) ∧
      ∃ A', s'.attempts.get (attemptKey c a) = some A' ∧ A'.attemptId = a ∧
        A'.status.isLive = false) := by
  rcases hs with
    hsame | ⟨rfl, F, C, A, F', C', A', outbox, seq, hf, hcom, hcell, hm, hset, -, rfl⟩
  · exact .inl hsame
  have hids := hm.cellStep.child
  have hrow := hf.attempt
  rw [hf.childId_eq, hf.attemptId_eq] at hrow
  refine .inr ⟨rfl, fun g => ?_, ⟨A, hrow, hf.attemptId_eq, by rw [hf.running]; rfl⟩, A', ?_⟩
  · by_cases hg : g = C'.fleetId
    · subst hg
      rw [spent_eq (F := F') (Table.get_insert_self ..), hcom, hids.1, spent_eq hf.fleet,
        Settlement.spends, if_pos hf.fleetId_eq.symm]
    · have hne : f ≠ g := by
        rw [← hf.fleetId_eq, ← hids.1]
        exact Ne.symm hg
      rw [Settlement.spends, if_neg hne, spent]
      change (Table.get (s.fleets.insert C'.fleetId F') g).elim 0 _ = _
      rw [Table.get_insert_of_ne _ _ hg]
      rfl
  · refine ⟨?_, hset.1.trans hf.attemptId_eq, hset.2⟩
    rw [← hf.childId_eq, ← hids.2.1, ← hf.attemptId_eq, ← hset.1]
    exact Table.get_insert_self ..

/-- **What one call settles.** It settles nothing and spends nothing, or it spends the reported
tokens and settles an attempt that was live before it. -/
theorem Op.settles_spec (h : KernelInv s) (hfresh : op.Fresh s) :
    (∀ g, (op.exec s).spent g = s.spent g + ((op.settles s).elim 0 fun S => S.spends g)) ∧
    ∀ S, op.settles s = some S → ∃ k A A',
      s.attempts.get k = some A ∧ A.attemptId = S.attemptId ∧ A.status.isLive = true ∧
      (op.exec s).attempts.get k = some A' ∧ A'.attemptId = S.attemptId ∧
      A'.status.isLive = false := by
  -- An operation that settles nothing has no effect that spends.
  by_cases hop : op.settling = none
  · have hnone : op.settles s = none := by
      cases op with
      | completeChild | recordEscalation => cases hop
      | _ => rfl
    rw [hnone]
    refine ⟨fun g => ?_, by rintro _ ⟨⟩⟩
    exact (exec_steps h hfresh).invariant (P := fun t => t.spent g = s.spent g + 0)
      (fun l _ _ hl he ih =>
        (he.spent_eq (fun f => touches_of_settling_eq_none hop hl f) g).trans ih) rfl
  cases op with
  | completeChild f c a v r t o n e =>
    simp only [exec, perform, settles]
    cases hok : s.completeChild f c a v r t o n e with
    | error => exact ⟨fun _ => rfl, by rintro _ ⟨⟩⟩
    | ok p =>
      obtain ⟨s', out⟩ := p
      rcases (completeChild_spec h hok).settles with
        ⟨rfl, rfl⟩ | ⟨rfl, hspent, ⟨A, hA, hid, hlive⟩, A', hA', hid', hset⟩
      · exact ⟨fun _ => rfl, by rintro _ ⟨⟩⟩
      · refine ⟨hspent, ?_⟩
        rintro _ ⟨rfl⟩
        exact ⟨_, A, A', hA, hid, hlive, hA', hid', hset⟩
  | recordEscalation f c a r t o n e =>
    simp only [exec, perform, settles]
    cases hok : s.recordEscalation f c a r t o n e with
    | error => exact ⟨fun _ => rfl, by rintro _ ⟨⟩⟩
    | ok p =>
      obtain ⟨s', out⟩ := p
      rcases (recordEscalation_spec h hok).settles with
        ⟨rfl, rfl⟩ | ⟨rfl, hspent, ⟨A, hA, hid, hlive⟩, A', hA', hid', hset⟩
      · exact ⟨fun _ => rfl, by rintro _ ⟨⟩⟩
      · refine ⟨hspent, ?_⟩
        rintro _ ⟨rfl⟩
        exact ⟨_, A, A', hA, hid, hlive, hA', hid', hset⟩
  | _ => exact absurd rfl hop

/-- The event is a completion event that names the attempt. -/
def OutboxEvent.finishes (a : String) (ev : OutboxEvent) : Bool :=
  ev.kind = .childDone ∧ ev.attemptId = some a

def doneEvents (a : String) (t : Table String OutboxEvent) : ℕ :=
  t.sum fun ev => if ev.finishes a then 1 else 0

/-- The caller hands over a completion event that names the attempt, to be appended as it is. -/
def Op.hands (a : String) : Op → Bool
  | .appendEvent ev => ev.finishes a
  | _ => false

theorem Op.appends_finishes (s : FleetKernelStore) (op : Op) (a : String) :
    ((op.appends s).elim 0 fun ev => if ev.finishes a then 1 else 0) ≤
      ((op.settles s).toList.map (·.attemptId)).count a + if op.hands a then 1 else 0 := by
  cases op with
  | launchChild | denyEscalation =>
    simp only [appends]
    split <;> simp [finishes, outboxEvent]
  | completeChild f c b v r t o n e =>
    simp only [appends, settles]
    cases hok : s.completeChild f c b v r t o n e with
    | error => exact Nat.zero_le _
    | ok p =>
      obtain ⟨s', out⟩ := p
      cases out with
      | superseded => exact Nat.zero_le _
      | completed =>
        by_cases hb : b = a <;> simp [finishes, outboxEvent, hb]
  | recordEscalation f c b r t o n e =>
    simp only [appends, settles]
    cases hok : s.recordEscalation f c b r t o n e with
    | error => exact Nat.zero_le _
    | ok p =>
      obtain ⟨s', out⟩ := p
      cases out with
      | superseded => exact Nat.zero_le _
      | completed =>
        by_cases hb : b = a <;> simp [finishes, outboxEvent, hb]
  | appendEvent =>
    simp only [appends, hands]
    split
    · exact Nat.le_add_left ..
    · exact Nat.zero_le _
  | _ => exact Nat.zero_le _

/-! ## Whole runs -/

/-- The store and the settlements that led to it: attempt ids name one attempt, settled attempts
were settled once, and what the fleets spent is what was settled. -/
structure SettledBy (s : FleetKernelStore) (hist : List Settlement) : Prop where
  inv : KernelInv s
  unique : ∀ k k' A A', s.attempts.get k = some A → s.attempts.get k' = some A' →
    A.attemptId = A'.attemptId → k = k'
  settled : ∀ S ∈ hist, ∃ k A, s.attempts.get k = some A ∧ A.attemptId = S.attemptId ∧
    A.status.isLive = false
  once : (hist.map (·.attemptId)).Nodup
  spent : ∀ g, s.spent g = (hist.map (·.spends g)).sum

theorem SettledBy.empty : SettledBy .empty [] where
  inv := .empty
  unique := by simp [FleetKernelStore.empty]
  settled := nofun
  once := nodup_nil
  spent := fun _ => rfl

theorem SettledBy.exec {hist : List Settlement} (h : SettledBy s hist)
    (hfresh : op.Fresh s) : SettledBy (op.exec s) (hist ++ (op.settles s).toList) := by
  obtain ⟨hspent, hsettles⟩ := settles_spec h.inv hfresh
  refine ⟨exec_inv h.inv hfresh, ?_, ?_, ?_, fun g => ?_⟩
  · -- a minted id is new, so it names the one row that was written
    intro k k' A A' hA hA' hid
    obtain ⟨k₀, hids⟩ := exec_attemptIds h.inv hfresh
    rcases hids k A hA with ⟨rfl, hm⟩ | ⟨B, hB, hBid⟩ <;>
      rcases hids k' A' hA' with ⟨rfl, hm'⟩ | ⟨B', hB', hBid'⟩
    · rfl
    · exact absurd (hBid'.trans hid.symm) (hfresh _ hm k' B' hB')
    · exact absurd (hBid.trans hid) (hfresh _ hm' k B hB)
    · exact h.unique k k' B B' hB hB' (hBid.trans (hid.trans hBid'.symm))
  · intro S hS
    rcases mem_append.mp hS with hS | hS
    · obtain ⟨k, A, hA, hid, hset⟩ := h.settled S hS
      exact ⟨k, A, exec_settled h.inv hfresh hA hset, hid, hset⟩
    · obtain ⟨k, _, A', -, -, -, hA', hid', hset'⟩ := hsettles S (Option.mem_toList.mp hS)
      exact ⟨k, A', hA', hid', hset'⟩
  · -- the attempt settled now was live, those of the history are settled
    rw [map_append]
    cases hS : op.settles s with
    | none => simpa using h.once
    | some S =>
      obtain ⟨k, A, _, hA, hid, hlive, -⟩ := hsettles S hS
      refine nodup_append.mpr ⟨h.once, nodup_singleton _, ?_⟩
      rintro b hb b' hb' rfl
      obtain ⟨S₀, hS₀, rfl⟩ := mem_map.mp hb
      obtain ⟨k₀, A₀, hA₀, hid₀, hset₀⟩ := h.settled S₀ hS₀
      have hsame : S₀.attemptId = S.attemptId := by simpa using hb'
      obtain rfl := h.unique k k₀ A A₀ hA hA₀ (hid.trans (hsame.symm.trans hid₀.symm))
      cases hA.symm.trans hA₀
      rw [hset₀] at hlive
      cases hlive
  · rw [hspent, h.spent, map_append, sum_append]
    cases op.settles s <;> simp

variable {ops : List Op}

theorem settledBy_run (hd : MintsDistinct ops) : SettledBy (run ops) (settlements ops) := by
  refine (guarded_fresh hd).induction_snoc (P := fun ops => SettledBy (run ops) (settlements ops))
    SettledBy.empty fun ops op ih hfresh => ?_
  rw [run_snoc, settlements, outputs_snoc]
  exact ih.exec hfresh

theorem doneEvents_le (a : String) {H : List Settlement} (h : KernelInv s)
    (hg : Guarded exec (fun s op => op.Fresh s) s ops) {n : ℕ}
    (hn : doneEvents a s.outbox ≤ (H.map (·.attemptId)).count a + n) :
    doneEvents a (runSteps exec s ops).outbox ≤
      ((H ++ outputs exec settles s ops).map (·.attemptId)).count a +
        (n + ops.countP (hands a)) := by
  induction ops generalizing s H n with
  | nil => simpa [outputs] using hn
  | cons op ops ih =>
    have hstep : doneEvents a (op.exec s).outbox ≤
        ((H ++ (op.settles s).toList).map (·.attemptId)).count a +
          (n + if op.hands a then 1 else 0) := by
      have hsum := (outboxStep h hg.1).sum_le fun ev => if ev.finishes a then 1 else 0
      have happ := appends_finishes s op a
      rw [map_append, count_append]
      change doneEvents a (op.exec s).outbox ≤ doneEvents a s.outbox +
        (op.appends s).elim 0 (fun ev => if ev.finishes a then 1 else 0) at hsum
      omega
    have hrest := ih (exec_inv h hg.1) hg.2 hstep
    rw [outputs, ← append_assoc, countP_cons]
    rw [runSteps_cons]
    omega

/-- **Exactly-once settlement.** Along every run with distinct minted ids: an attempt that is done
or interrupted never changes; no attempt is settled twice, and a fleet's committed tokens are those
of its settlements; beyond the events callers hand over themselves, at most one completion event
names an attempt; and a report for a settled attempt, of another generation than its fleet's, or
from another epoch leaves every table as it was. -/
theorem exactly_once_settlement {ops : List Op} (hd : MintsDistinct ops) :
    (∀ pre post, ops = pre ++ post → ∀ k A, (run pre).attempts.get k = some A →
      A.status = .done ∨ A.status = .interrupted → (run ops).attempts.get k = some A) ∧
    ((settlements ops).map (·.attemptId)).Nodup ∧
    (∀ f F, (run ops).fleets.get f = some F →
      F.budget.tokensCommitted.toNat = ((settlements ops).map (·.spends f)).sum) ∧
    (∀ a, doneEvents a (run ops).outbox ≤ 1 + ops.countP (hands a)) ∧
    ∀ (op : Op) (c a : String) (epoch : Option UInt64) (A : Attempt),
      op.report = some (c, a, epoch) → (run ops).attempts.get (attemptKey c a) = some A →
      Late (run ops) A epoch → op.exec (run ops) = run ops := by
  have h := settledBy_run hd
  refine ⟨?_, h.once, fun f F hF => ?_, fun a => ?_, fun op c a epoch A hop hA hlate => ?_⟩
  · rintro pre post rfl k A hA hst
    have hset : A.status.isLive = false := by
      rcases hst with hst | hst <;> rw [hst] <;> rfl
    obtain ⟨hpre, hpost⟩ := (guarded_append ..).mp (guarded_fresh hd)
    have hinv := run_inv (mintsDistinct_of_append hd)
    rw [run, runSteps_append]
    exact (hpost.invariant (P := fun t => KernelInv t ∧ t.attempts.get k = some A)
      (fun _ _ ht hfresh => ⟨exec_inv ht.1 hfresh, exec_settled ht.1 hfresh ht.2 hset⟩)
      ⟨hinv, hA⟩).2
  · rw [← spent_eq hF]
    exact h.spent f
  · have hle := doneEvents_le (H := []) (n := 0) a .empty (guarded_fresh hd) (Nat.zero_le _)
    have honce := nodup_iff_count_le_one.mp h.once a
    rw [nil_append, Nat.zero_add] at hle
    exact hle.trans (Nat.add_le_add_right honce _)
  · exact exec_eq_of_late h.inv hop hA hlate

/-- A second completion of the settled attempt, by its own worker, with other tokens. -/
def secondCompletion : Op :=
  .completeChild "f" "c" "a" (.rejected "") ⟨"", false, 9, [], none⟩ 9 1 4 "e'"

/-- The attempt is settled once, and its second completion changes nothing. -/
theorem exactly_once_settlement_twoLaunches :
    MintsDistinct twoLaunches ∧ settlements twoLaunches = [⟨"f", "a", 7⟩] ∧
    doneEvents "a" (run twoLaunches).outbox = 1 ∧
    ((run twoLaunches).attempts.get (attemptKey "c" "a")).map (·.status) = some .done ∧
    secondCompletion.exec (run twoLaunches) = run twoLaunches := by
  refine ⟨by decide, by decide, by decide, by decide, ?_⟩
  have hrow : ∃ A, (run twoLaunches).attempts.get (attemptKey "c" "a") = some A ∧
      A.status.isLive = false := by
    cases hA : (run twoLaunches).attempts.get (attemptKey "c" "a") with
    | none => exact absurd hA (by decide)
    | some A =>
      have hst : ((run twoLaunches).attempts.get (attemptKey "c" "a")).map (·.status.isLive) =
        some false := by decide
      rw [hA] at hst
      exact ⟨A, rfl, Option.some.inj hst⟩
  obtain ⟨A, hA, hset⟩ := hrow
  exact (exactly_once_settlement (by decide)).2.2.2.2 secondCompletion "c" "a" (some 1) A rfl hA
    (.inl hset)

/-- A completion event that a caller hands to `append_event` names the attempt once more. -/
theorem appended_event_names_attempt_again :
    let handed : Op := .appendEvent (outboxEvent .childDone "x" "f" (some "c") (some "a"))
    MintsDistinct (twoLaunches ++ [handed]) ∧
    doneEvents "a" (run (twoLaunches ++ [handed])).outbox = 2 := by
  decide

end Octos.Fleet
