import Octos.Base.Runs
import Octos.Fleet.Store.Planning

/-!
# Operations and runs of the store

`reconcile` walks the in-flight children. On a live fleet it reclaims the attempts whose lease is
stale and returns their children to `ready`; on a terminal fleet it settles every live attempt and
retires its child.

The writing operations of the store as data, and the run of a list of them. The store's gate
serializes its callers, so the interleavings of any number of workers, keepers and boots are the
lists of operations.
-/

namespace Octos.Fleet

open Prod

/-- The lease belongs to another boot, or expired before `nowMs`. -/
def leaseStale (attempt : Attempt) (nowMs ownerEpoch : UInt64) : Bool :=
  attempt.lease.ownerEpoch ≠ ownerEpoch || attempt.lease.expiresAtMs < nowMs

namespace FleetKernelStore

/-- The decodable children that own their keys, in key order. -/
def ownedChildren (s : FleetKernelStore) : List FleetChildRecord :=
  s.children.entries.filterMap fun p =>
    (decodeRow p.2).filter fun r => childKey r.fleetId r.childId = p.1

/-- One step of the walk: reclaim the live attempt of an in-flight child, unless its fleet is live
and its lease still holds. -/
def reconcileStep (nowMs ownerEpoch : UInt64) (acc : Committed (List InterruptedAttempt))
    (child : FleetChildRecord) : Except StoreError (Committed (List InterruptedAttempt)) := do
  let s := acc.1
  if child.status ≠ .launching ∧ child.status ≠ .running then
    return acc
  let some aid := child.currentAttemptId | return acc
  let some fleet := s.fleet child.fleetId | return acc
  let some attempt := s.attempt child.childId aid | return acc
  if attempt.fleetId ≠ child.fleetId then
    return acc
  if !attempt.status.isLive then
    return acc
  if fleetIsLive fleet ∧ !leaseStale attempt nowMs ownerEpoch then
    return acc
  let reserved ← orError (checkedSub fleet.budget.tokensReserved attempt.reservedTokens)
    (.reservationUnderflowReconciling child.childId attempt.reservedTokens
      fleet.budget.tokensReserved)
  let attempts := s.attempts.insert (attemptKey child.childId aid)
    { attempt with status := .interrupted, endedAtMs := some nowMs }
  let fleets := s.fleets.insert child.fleetId
    { fleet with budget := { fleet.budget with tokensReserved := reserved }, updatedAtMs := nowMs }
  let children := s.children.insert (childKey child.fleetId child.childId)
    { child with
      status := if fleetIsLive fleet then .ready else .cancelled, currentAttemptId := none,
      updatedAtMs := nowMs }
  return ({ s with fleets, children, attempts },
    acc.2 ++ [{ fleetId := child.fleetId, childId := child.childId, attemptId := aid }])

/-- Boot recovery: reclaim every stranded attempt in one transaction. -/
def reconcile (s : FleetKernelStore) (nowMs ownerEpoch : UInt64) :
    Except StoreError (Committed (List InterruptedAttempt)) :=
  s.ownedChildren.foldlM (reconcileStep nowMs ownerEpoch) (s, [])

end FleetKernelStore

/-- A call of a writing operation of the store. -/
inductive Op
  | createFleet (fleetId controllerSessionKey : String) (controllerWorkspaceRoot : Option String)
      (profileId : String) (tokenBudget : UInt64) (hard : Bool) (nowMs : UInt64)
  | createPlan (plan : DurablePlan)
  | createFleetWithPlan (controllerSessionKey : String) (controllerWorkspaceRoot : Option String)
      (controllerWorkspaceHasRuntimeHint : Option Bool) (profileId : String) (tokenBudget : UInt64)
      (hard : Bool) (plan : DurablePlan) (nowMs : UInt64)
  | addChild (fleetId childId : String) (deps : List String) (nowMs : UInt64)
  | markReady (fleetId childId : String) (nowMs : UInt64)
  | resolveAndCollectReady (fleetId : String) (nowMs : UInt64)
  | cancelFleet (fleetId : String) (nowMs : UInt64)
  | launchChild (fleetId childId : String) (projectedTokens nowMs ownerEpoch leaseTtlMs : UInt64)
      (attemptId eventId : String)
  | markRunning (childId attemptId : String)
  | completeChild (fleetId childId attemptId : String) (verdict : AcceptanceVerdict)
      (snapshot : ChildResultSnapshot) (actualTokens ownerEpoch nowMs : UInt64) (eventId : String)
  | recordEscalation (fleetId childId attemptId : String) (request : EscalationRequest)
      (actualTokens ownerEpoch nowMs : UInt64) (eventId : String)
  | replan (fleetId : String) (expectedRevision : UInt64) (newPlan : DurablePlan) (nowMs : UInt64)
  | retitleTask (fleetId : String) (expectedRevision : UInt64) (taskId title detail : String)
  | setTaskGrant (fleetId : String) (expectedRevision : UInt64) (taskId : String)
      (grant : WorkerGrant) (nowMs : UInt64)
  | denyEscalation (fleetId childId reason : String) (nowMs : UInt64) (eventId : String)
  | reconcile (nowMs ownerEpoch : UInt64)
  | appendEvent (event : OutboxEvent)
  | claimNext (consumer : String) (nowMs ttlMs : UInt64) (token : String)
  | ack (sequence : UInt64) (consumer claimToken : String)
  | appendDecision (fleetId actor : String) (kind : DecisionKind) (note : String) (nowMs : UInt64)
  deriving DecidableEq

namespace Op

/-- The transaction of a call on the store, without its reply. -/
def perform (s : FleetKernelStore) : Op → Except StoreError FleetKernelStore
  | .createFleet f k r p b h n => fst <$> s.createFleet f k r p b h n
  | .createPlan p => fst <$> s.createPlan p
  | .createFleetWithPlan k r w p b h pl n => fst <$> s.createFleetWithPlan k r w p b h pl n
  | .addChild f c d n => fst <$> s.addChild f c d n
  | .markReady f c n => fst <$> s.markReady f c n
  | .resolveAndCollectReady f n => fst <$> s.resolveAndCollectReady f n
  | .cancelFleet f n => fst <$> s.cancelFleet f n
  | .launchChild f c t n o l a e => fst <$> s.launchChild f c t n o l a e
  | .markRunning c a => fst <$> s.markRunning c a
  | .completeChild f c a v r t o n e => fst <$> s.completeChild f c a v r t o n e
  | .recordEscalation f c a r t o n e => fst <$> s.recordEscalation f c a r t o n e
  | .replan f r p n => fst <$> s.replan f r p n
  | .retitleTask f r t a b => fst <$> s.retitleTask f r t a b
  | .setTaskGrant f r t g n => fst <$> s.setTaskGrant f r t g n
  | .denyEscalation f c r n e => fst <$> s.denyEscalation f c r n e
  | .reconcile n o => fst <$> s.reconcile n o
  | .appendEvent e => fst <$> s.appendEvent e
  | .claimNext c n t k => fst <$> s.claimNext c n t k
  | .ack q c k => fst <$> s.ack q c k
  | .appendDecision f a k n t => fst <$> s.appendDecision f a k n t

/-- The store after a call: a failed transaction leaves it as it was. -/
def exec (s : FleetKernelStore) (op : Op) : FleetKernelStore :=
  match op.perform s with
  | .ok s' => s'
  | .error _ => s

def mints : Op → Option String
  | .launchChild _ _ _ _ _ _ a _ => some a
  | _ => none

end Op

def run (ops : List Op) : FleetKernelStore := runSteps Op.exec .empty ops

/-- The attempt ids minted along the run are pairwise distinct. -/
def MintsDistinct (ops : List Op) : Prop := (ops.filterMap Op.mints).Nodup

instance (ops : List Op) : Decidable (MintsDistinct ops) :=
  inferInstanceAs (Decidable (List.Nodup _))

/-- The id a call mints is not the id of an attempt in the store. -/
def Op.Fresh (s : FleetKernelStore) (op : Op) : Prop :=
  ∀ a, op.mints = some a → ∀ k A, s.attempts.get k = some A → A.attemptId ≠ a

theorem Op.exec_eq_of_perform {s s' : FleetKernelStore} {op : Op} (h : op.perform s = .ok s') :
    op.exec s = s' := by
  rw [Op.exec, h]

theorem Op.exec_cases (s : FleetKernelStore) (op : Op) :
    op.exec s = s ∨ op.perform s = .ok (op.exec s) := by
  rw [Op.exec]
  cases h : op.perform s with
  | ok s' => exact .inr rfl
  | error e => exact .inl rfl

theorem map_fst_eq_ok {α β ε : Type} {x : Except ε (α × β)} {a : α} :
    fst <$> x = .ok a ↔ ∃ b, x = .ok (a, b) := by
  cases x with
  | error e => simp [Functor.map, Except.map]
  | ok p => cases p; simp [Functor.map, Except.map]

theorem run_append (ops ops' : List Op) : run (ops ++ ops') = runSteps Op.exec (run ops) ops' :=
  runSteps_append ..

theorem run_snoc (ops : List Op) (op : Op) : run (ops ++ [op]) = op.exec (run ops) :=
  runSteps_snoc ..

theorem mintsDistinct_of_append {pre post : List Op} (hd : MintsDistinct (pre ++ post)) :
    MintsDistinct pre := by
  unfold MintsDistinct at hd ⊢
  rw [List.filterMap_append] at hd
  exact hd.of_append_left

end Octos.Fleet
