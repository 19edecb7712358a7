import Octos.Continuations.Scheduler

/-!
# Order of the continuation queue

The heap is full of stale entries that are skipped when they come up, and a drain puts the entries
it passed over back in bulk. The queue still behaves as a sorted list: after every sequence of
calls, a drain hands over the first pending items that the caller wants, by rank and then by age. An
item stays pending until a call hands it over or replaces it, and no item is handed over twice.

## Main results

* `drainReadyForSessionIf_eq`: what a drain hands over
* `ordered_without_loss`: order, no loss and no duplicates for every sequence of calls
-/

namespace Octos.Continuations

open List QueuedMasterContinuation Table

/-! ## The order of the items -/

/-- A higher rank first, then the older sequence number. -/
def QueuedMasterContinuation.ahead (item item' : QueuedMasterContinuation) : Prop :=
  item'.priority.rank < item.priority.rank ∨
    item.priority.rank = item'.priority.rank ∧ item.sequence ≤ item'.sequence

instance QueuedMasterContinuation.decidableAhead : DecidableRel QueuedMasterContinuation.ahead :=
  fun _ _ => inferInstanceAs (Decidable (_ ∨ _))

instance QueuedMasterContinuation.totalAhead : Std.Total QueuedMasterContinuation.ahead where
  total item item' := by
    unfold ahead
    omega

instance QueuedMasterContinuation.transAhead :
    IsTrans QueuedMasterContinuation QueuedMasterContinuation.ahead where
  trans item item' item'' h h' := by
    unfold ahead at *
    omega

namespace MasterContinuationScheduler

variable {s : MasterContinuationScheduler} {item : QueuedMasterContinuation}

theorem WellFormed.queue_sorted (h : s.WellFormed) : s.queue.Pairwise ahead := by
  refine s.heap.sorted.filterMap _ fun e e' hbefore item he item' he' => ?_
  have hentry := h.keyed.entry_eq he
  have hentry' := h.keyed.entry_eq he'
  subst hentry hentry'
  rcases hbefore with hrank | ⟨hrank, hseq | ⟨hseq, -⟩⟩
  · exact .inl hrank
  · exact .inr ⟨hrank, hseq.le⟩
  · exact .inr ⟨hrank, hseq.le⟩

theorem WellFormed.queue_perm (h : s.WellFormed) : s.queue.Perm s.pendingByKey.values := by
  have hvalues : s.pendingByKey.values.Nodup :=
    (values_pairwise h.keyed).imp fun hlt heq => hlt.ne (congrArg _ heq)
  have hqueue : s.queue.Nodup := h.queue_distinct.imp fun hne heq => hne (congrArg _ heq)
  refine (perm_ext_iff_of_nodup hqueue hvalues).mpr fun item => ?_
  rw [h.mem_queue, mem_values]
  constructor
  · exact fun hget => ⟨_, hget⟩
  · rintro ⟨k, hk⟩
    rw [h.keyed k item hk, hk]

/-- **The queue is a sorted list**: the pending items with a property, by rank and then by age. -/
theorem WellFormed.queue_filter_eq_sorted (h : s.WellFormed) (p : QueuedMasterContinuation → Bool) :
    s.queue.filter p = (s.pendingByKey.values.filter p).insertionSort ahead := by
  have hsort := perm_insertionSort ahead
    (s.pendingByKey.values.filter p)
  refine List.Perm.eq_of_pairwise ?_ (h.queue_sorted.filter p) (pairwise_insertionSort ..)
    ((h.queue_perm.filter p).trans hsort.symm)
  intro item item' hitem hitem' hahead hahead'
  have hget := h.mem_queue.mp (mem_filter.mp hitem).1
  obtain ⟨k, hk⟩ := mem_values.mp (mem_filter.mp (hsort.mem_iff.mp hitem')).1
  -- each is ahead of the other, so they have one sequence number
  apply h.eq_of_sequence hget hk
  unfold ahead at hahead hahead'
  omega

/-- **A drain** hands over the first items of the sorted list of those that the caller wants. -/
theorem WellFormed.drainReadyForSessionIf_eq (h : s.WellFormed)
    {runtimeState : MasterContinuationRuntimeState} (hidle : runtimeState.isIdleEligible = true)
    (maxItems : ℕ) (sessionId profileId : String) (eligible : QueuedMasterContinuation → Bool) :
    (s.drainReadyForSessionIf runtimeState maxItems sessionId profileId eligible).2 =
      ((s.pendingByKey.values.filter (wantedBy sessionId profileId eligible)).insertionSort
        ahead).take maxItems := by
  rw [← h.queue_filter_eq_sorted, drainReadyForSessionIf]
  split_ifs with hnone
  · rw [hidle] at hnone
    rw [hnone.resolve_right (by simp), take_zero]
  · exact (drainLoop_spec _ maxItems h.distinct h.keyed s.recentlyClaimedExternal).drained

/-! ## No loss -/

/-- The item that a call adds to the pending ones. -/
def accepted (s : MasterContinuationScheduler) : Call → Option QueuedMasterContinuation
  | .enqueueAt request enqueuedAt => (s.enqueueAt request enqueuedAt).2.queuedItem
  | .replacePendingPayload request now => (s.replacePendingPayload request now).2.queuedItem
  | .reinsert item =>
    if (s.reinsert item).2 = .requeued then some { item with
      sequence := s.nextSequence, redeliveryAttempts := item.redeliveryAttempts + 1 }
    else none
  | .requeueTaken item =>
    if s.pendingByKey.get item.dedupeKey = none then some { item with sequence := s.nextSequence }
    else none
  | _ => none

theorem enqueueAt_queued {request : MasterContinuationRequest} {enqueuedAt : ℤ}
    (h : (s.enqueueAt request enqueuedAt).2.queuedItem = some item) :
    (s.enqueueAt request enqueuedAt).1.pendingByKey.get item.dedupeKey = some item ∧
      item.sequence = s.nextSequence := by
  rw [enqueueAt] at h ⊢
  cases hget : s.pendingByKey.get request.stableDedupeKey with
  | some =>
    rw [hget] at h
    cases h
  | none =>
    rw [hget] at h
    simp only at h ⊢
    split_ifs at h ⊢
    · cases h
    · cases h
      exact ⟨get_insert_self .., rfl⟩

theorem reinsert_requeued (h : (s.reinsert item).2 = .requeued) :
    (s.reinsert item).1.pendingByKey.get item.dedupeKey = some { item with
      sequence := s.nextSequence, redeliveryAttempts := item.redeliveryAttempts + 1 } := by
  rw [reinsert] at h ⊢
  cases hget : (s.withoutClaim item.dedupeKey).pendingByKey.get item.dedupeKey with
  | some =>
    simp only [hget] at h
    cases h
  | none =>
    simp only [hget] at h ⊢
    split_ifs at h ⊢
    exact get_insert_self ..

variable {c : Call}

theorem get_of_accepted (h : s.accepted c = some item) :
    (s.step c).pendingByKey.get item.dedupeKey = some item ∧ item.sequence = s.nextSequence := by
  cases c with
  | enqueueAt | replacePendingPayload => exact enqueueAt_queued h
  | reinsert =>
    rw [accepted] at h
    split_ifs at h with hr
    cases h
    exact ⟨reinsert_requeued hr, rfl⟩
  | requeueTaken =>
    rw [accepted] at h
    split_ifs at h with hget
    cases h
    refine ⟨?_, rfl⟩
    rw [step, apply, requeueTaken]
    simp only [withoutClaim, hget]
    exact get_insert_self ..
  | _ => cases h

variable {r : Response} {s' : MasterContinuationScheduler} {k : String}

theorem Changed.get_pending (hc : Changed s c r s') (hk : s.pendingByKey.get k = some item) :
    item ∈ r.returned ∨ c.replaces = some k ∨
      ∃ attempt, s'.pendingByKey.get k = some { item with persistedAttempt := attempt } := by
  cases hc with
  | kept _ hpending => exact .inr (.inr ⟨item.persistedAttempt, by rw [hpending, hk]⟩)
  | inserted new _ _ hfree hpending =>
    by_cases hkey : k = new.dedupeKey
    · rw [hkey] at hk ⊢
      rcases hfree with hnone | hreplaces
      · rw [hnone] at hk
        cases hk
      · exact .inr (.inl hreplaces)
    · refine .inr (.inr ⟨item.persistedAttempt, ?_⟩)
      rw [hpending, get_insert_of_ne _ _ hkey, hk]
  | stamped k' item' attempt _ hget hpending =>
    by_cases hkey : k = k'
    · subst hkey
      rw [hk] at hget
      cases hget
      exact .inr (.inr ⟨attempt, by rw [hpending, get_insert_self]⟩)
    · refine .inr (.inr ⟨item.persistedAttempt, ?_⟩)
      rw [hpending, get_insert_of_ne _ _ hkey, hk]
  | removed hitems _ hpending =>
    by_cases hmem : k ∈ r.returned.map (·.dedupeKey)
    · obtain ⟨item', hitem', rfl⟩ := mem_map.mp hmem
      rw [hitems item' hitem'] at hk
      cases hk
      exact .inl hitem'
    · exact .inr (.inr ⟨item.persistedAttempt, by rw [hpending, if_neg hmem, hk]⟩)

def responses (s : MasterContinuationScheduler) (calls : List Call) : List Response :=
  outputs step (fun s c => some (s.apply c).2) s calls

/-- **No loss**: an item stays pending until a call hands it over or replaces it. -/
theorem WellFormed.stays_pending (h : s.WellFormed)
    (hk : s.pendingByKey.get k = some item) {calls : List Call}
    (hreplaces : ∀ c ∈ calls, c.replaces ≠ some k)
    (hreturned : ∀ r ∈ s.responses calls, ∀ it ∈ r.returned, it.sequence ≠ item.sequence) :
    ∃ attempt, (runSteps MasterContinuationScheduler.step s calls).pendingByKey.get k =
      some { item with persistedAttempt := attempt } := by
  induction calls generalizing s item with
  | nil => exact ⟨item.persistedAttempt, hk⟩
  | cons c calls ih =>
    rw [forall_mem_cons] at hreplaces
    have hout : s.responses (c :: calls) = (s.apply c).2 :: (s.step c).responses calls := rfl
    rw [hout, forall_mem_cons] at hreturned
    rcases (changed_apply h c).get_pending hk with hmem | hrep | ⟨attempt, hget⟩
    · exact absurd rfl (hreturned.1 item hmem)
    · exact absurd hrep hreplaces.1
    · obtain ⟨attempt', hget'⟩ := ih (h.afterStep c) hget hreplaces.2 hreturned.2
      exact ⟨attempt', hget'⟩

/-! ## No duplicates -/

/-- The items that were handed over: their sequence numbers are all different, and no pending item
has one of them. -/
structure Spent (s : MasterContinuationScheduler) (items : List QueuedMasterContinuation) :
    Prop where
  below : ∀ it ∈ items, it.sequence < s.nextSequence
  apart : ∀ it ∈ items, ∀ k item, s.pendingByKey.get k = some item → item.sequence ≠ it.sequence
  distinct : items.Pairwise fun it it' => it.sequence ≠ it'.sequence

theorem WellFormed.sequence_lt (h : s.WellFormed)
    (hk : s.pendingByKey.get k = some item) : item.sequence < s.nextSequence :=
  h.fresh item.entry (h.covered k item hk)

theorem Spent.changed {items : List QueuedMasterContinuation} (hs : Spent s items)
    (h : s.WellFormed) (hc : Changed s c r s') : Spent s' (items ++ r.returned) := by
  cases hc with
  | kept hr hpending _ hnext =>
    rw [hr, append_nil]
    exact ⟨by rw [hnext]; exact hs.below, by rw [hpending]; exact hs.apart, hs.distinct⟩
  -- The number of a new item is above all that were handed over.
  | inserted item hr hseq _ hpending _ hnext =>
    rw [hr, append_nil]
    refine ⟨fun it hit => ?_, fun it hit => ?_, hs.distinct⟩
    · rw [hnext]
      exact (hs.below it hit).trans (Nat.lt_succ_self _)
    · rw [hpending]
      refine forall_insert (fun k old _ hk => hs.apart it hit k old hk) ?_
      rw [hseq]
      exact (hs.below it hit).ne'
  | stamped k item attempt hr hget hpending _ hnext =>
    rw [hr, append_nil]
    refine ⟨by rw [hnext]; exact hs.below, fun it hit => ?_, hs.distinct⟩
    rw [hpending]
    exact forall_insert (fun k' old _ hk' => hs.apart it hit k' old hk')
      (hs.apart it hit k item hget)
  | removed hitems hdistinct hpending _ _ hnext =>
    refine ⟨?_, ?_, pairwise_append.mpr ⟨hs.distinct, hdistinct, ?_⟩⟩
    · rw [hnext, forall_mem_append]
      exact ⟨hs.below, fun it hit => h.sequence_lt (hitems it hit)⟩
    · intro it hit k item hk
      rw [hpending] at hk
      split_ifs at hk with hnot
      rcases mem_append.mp hit with hit | hit
      · exact hs.apart it hit k item hk
      · -- an item that is still pending is none of those handed over
        intro hseq
        apply hnot
        obtain rfl := h.eq_of_sequence hk (hitems it hit) hseq
        rw [← h.keyed k item hk]
        exact mem_map_of_mem hit
    · intro it hit it' hit'
      exact (hs.apart it hit _ it' (hitems it' hit')).symm

/-- The items handed over by a sequence of calls. -/
def handedOver (s : MasterContinuationScheduler) (calls : List Call) :
    List QueuedMasterContinuation :=
  (s.responses calls).flatMap Response.returned

theorem spent_run (calls : List Call) : Spent (runSteps step new calls) (new.handedOver calls) := by
  induction calls using List.reverseRecOn with
  | nil => exact ⟨forall_mem_nil _, forall_mem_nil _, List.Pairwise.nil⟩
  | append_singleton calls c ih =>
    have hout : new.handedOver (calls ++ [c]) =
        new.handedOver calls ++ ((runSteps step new calls).apply c).2.returned := by
      rw [handedOver, responses, outputs_snoc]
      simp [handedOver, responses]
    rw [runSteps_snoc, hout]
    exact ih.changed (wellFormed_run calls) (changed_apply (wellFormed_run calls) c)

/-! ## The queue over whole runs -/

/-- **Order, no loss and no duplicates** after every sequence of calls. An accepted item is pending
with a sequence number greater than those of all items handed over so far; a pending item stays
pending, but for its stamp, until it is handed over or replaced; a drain hands over the first items
of the sorted list of those that the caller wants; and no two items handed over have one sequence
number. -/
theorem ordered_without_loss (calls : List Call) :
    (∀ c item, (runSteps step new calls).accepted c = some item →
      (runSteps step new (calls ++ [c])).pendingByKey.get item.dedupeKey = some item ∧
        ∀ it ∈ new.handedOver calls, it.sequence < item.sequence) ∧
    (∀ k item later, (runSteps step new calls).pendingByKey.get k = some item →
      (∀ c ∈ later, c.replaces ≠ some k) →
      (∀ it ∈ (runSteps step new calls).handedOver later, it.sequence ≠ item.sequence) →
      ∃ attempt, (runSteps step new (calls ++ later)).pendingByKey.get k =
        some { item with persistedAttempt := attempt }) ∧
    (∀ runtimeState maxItems sessionId profileId eligible,
      runtimeState.isIdleEligible = true →
      ((runSteps step new calls).drainReadyForSessionIf runtimeState maxItems sessionId profileId
          eligible).2 =
        (((runSteps step new calls).pendingByKey.values.filter
          (wantedBy sessionId profileId eligible)).insertionSort
            QueuedMasterContinuation.ahead).take maxItems) ∧
    ((new.handedOver calls).map (·.sequence)).Nodup := by
  have hwf := wellFormed_run calls
  have hspent := spent_run calls
  refine ⟨?_, ?_, ?_, ?_⟩
  · intro c item hacc
    obtain ⟨hget, hseq⟩ := get_of_accepted hacc
    rw [runSteps_snoc, hseq]
    exact ⟨hget, hspent.below⟩
  · intro k item later hk hreplaces hreturned
    rw [runSteps_append]
    refine hwf.stays_pending hk hreplaces fun r hr it hit => ?_
    exact hreturned it (mem_flatMap.mpr ⟨r, hr, hit⟩)
  · intro runtimeState maxItems sessionId profileId eligible hidle
    exact hwf.drainReadyForSessionIf_eq hidle maxItems sessionId profileId eligible
  · exact pairwise_map.mpr hspent.distinct

/-- Every call takes one number at most. -/
theorem nextSequence_le (calls : List Call) :
    (runSteps step new calls).nextSequence ≤ calls.length := by
  induction calls using reverseRecOn with
  | nil => exact le_rfl
  | append_singleton calls c ih =>
    rw [runSteps_snoc, length_append, length_singleton]
    have hc := changed_apply (wellFormed_run calls) c
    cases hc with
    | kept _ _ _ hnext | inserted _ _ _ _ _ _ hnext | stamped _ _ _ _ _ _ _ hnext
    | removed _ _ _ _ _ hnext =>
      rw [step, hnext]
      omega

/-- An item that is pending with a given number is a given one, but for its stamp. -/
def NumberOf (k : String) (item : QueuedMasterContinuation) (s : MasterContinuationScheduler) :
    Prop :=
  ∀ k' item', s.pendingByKey.get k' = some item' → item'.sequence = item.sequence →
    k' = k ∧ ∃ attempt, item' = { item with persistedAttempt := attempt }

theorem NumberOf.changed (h : NumberOf k item s) (hlt : item.sequence < s.nextSequence)
    (hc : Changed s c r s') : NumberOf k item s' ∧ item.sequence < s'.nextSequence := by
  cases hc with
  | kept _ hpending _ hnext => exact ⟨by rw [NumberOf, hpending]; exact h, hnext ▸ hlt⟩
  | inserted new _ hseq _ hpending _ hnext =>
    refine ⟨fun k' item' hk' heq => ?_, hnext ▸ Nat.lt_succ_of_lt hlt⟩
    rw [hpending, get_insert] at hk'
    split_ifs at hk'
    · -- the new item has the next number
      cases hk'
      omega
    · exact h k' item' hk' heq
  | stamped k₁ item₁ attempt _ hget hpending _ hnext =>
    refine ⟨fun k' item' hk' heq => ?_, hnext ▸ hlt⟩
    rw [hpending, get_insert] at hk'
    split_ifs at hk' with hkey
    · cases hk'
      obtain ⟨rfl, _, rfl⟩ := h k₁ item₁ hget heq
      exact ⟨hkey, attempt, rfl⟩
    · exact h k' item' hk' heq
  | removed _ _ hpending _ _ hnext =>
    refine ⟨fun k' item' hk' heq => h k' item' ?_ heq, hnext ▸ hlt⟩
    rw [hpending] at hk'
    split_ifs at hk'
    exact hk'

/-- **A sequence number is never used again.** An item that is pending at any later time with the
number of one that was pending before, whether that one has been handed over, cancelled or replaced,
is the same item but for its stamp. So no entry left behind in the heap is taken for another
item. -/
theorem sequences_distinct (calls later : List Call)
    (hk : (runSteps step new calls).pendingByKey.get k = some item) :
    NumberOf k item (runSteps step new (calls ++ later)) := by
  have hwf := wellFormed_run calls
  rw [runSteps_append]
  refine (runSteps_invariant (P := fun s => s.WellFormed ∧ NumberOf k item s ∧
    item.sequence < s.nextSequence) (fun s c ⟨hwf, h, hlt⟩ => ?_) ⟨hwf, ?_, hwf.sequence_lt hk⟩
      later).2.1
  · have hc := changed_apply hwf c
    exact ⟨hwf.changed hc, h.changed hlt hc⟩
  · intro k' item' hk' heq
    obtain rfl := hwf.eq_of_sequence hk' hk heq
    exact ⟨(hwf.keyed k' _ hk').symm.trans (hwf.keyed k _ hk), _, rfl⟩

/-- A request of a session for a reason, under an explicit key. -/
def requestFor (reason : MasterContinuationReason) (key : String) : MasterContinuationRequest where
  groupId := "g"
  sessionId := "s"
  profileId := "p"
  reason := reason
  createdAt := 0
  dedupeKey := some key

/-- A wake-up and, one second later, the tick of a loop. -/
def wakeUpThenLoop : List Call :=
  [.enqueueAt (requestFor (.external "wake") "k1") 0,
    .enqueueAt (requestFor .loopFire "k2") (10 ^ 9)]

def drainOne : Call := .drainReadyForSessionIf .idle 1 "s" "p" fun _ => true

theorem ordered_without_loss_wakeUpThenLoop :
    ((runSteps step new wakeUpThenLoop).drainReadyForSessionIf .idle 1 "s" "p" fun _ => true).2.map
        (·.dedupeKey) = ["k2"] ∧
      ∃ attempt, (runSteps step new (wakeUpThenLoop ++ [drainOne])).pendingByKey.get "k1" =
        some { new.itemOf (requestFor (.external "wake") "k1") 0 with
          persistedAttempt := attempt } := by
  obtain ⟨-, hstays, hdrain, -⟩ := ordered_without_loss wakeUpThenLoop
  constructor
  · decide
  · exact hstays "k1" (new.itemOf (requestFor (.external "wake") "k1") 0) [drainOne] (by decide)
      (by decide) (by decide)

/-- The item in the place of the replaced one has the next number. -/
theorem sequences_distinct_replaced :
    let later := [.replacePendingPayload (requestFor (.external "wake") "k1") 5]
    NumberOf "k1" (new.itemOf (requestFor (.external "wake") "k1") 0)
        (runSteps step new (wakeUpThenLoop ++ later)) ∧
      ((runSteps step new (wakeUpThenLoop ++ later)).pendingByKey.get "k1").map (·.sequence) =
        some 2 :=
  ⟨sequences_distinct wakeUpThenLoop _ (by decide), by decide⟩

end MasterContinuationScheduler

end Octos.Continuations
