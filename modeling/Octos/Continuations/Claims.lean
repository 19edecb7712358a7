import Octos.Continuations.Order

/-!
# How long a claimed continuation stays visible

A drained external continuation leaves a claim, so that a second enqueue of its key is refused and
the fleet can see that it was taken, for 30 seconds. The claim carries the time at which the item
was queued and not the time at which it was drained. It is therefore visible for the whole window
only if the item did not wait.

## Main results

* `claim_stays_visible`: the claim of an item that is drained as soon as it is queued
-/

namespace Octos.Continuations

open MasterContinuationScheduler List Table

/-- A call at a time. -/
structure Event where
  now : ℤ
  call : Call

def Call.clock : Call → Option ℤ
  | .enqueueAt _ enqueuedAt => some enqueuedAt
  | .replacePendingPayload _ now => some now
  | _ => none

/-- The clock does not go back, and the calls that need a time are given the time of the clock. -/
def Clocked (events : List Event) : Prop :=
  events.Pairwise (fun e e' => e.now ≤ e'.now) ∧ ∀ e ∈ events, ∀ t ∈ e.call.clock, t = e.now

def afterEvents (s : MasterContinuationScheduler) (events : List Event) :
    MasterContinuationScheduler :=
  runSteps step s (events.map (·.call))

/-- The key that a call re-inserts, requeues, replaces or clears. -/
def Call.forgets : Call → Option String
  | .reinsert item => some item.dedupeKey
  | .requeueTaken item => some item.dedupeKey
  | .replacePendingPayload request _ => some request.stableDedupeKey
  | .clearRecentExternalClaim dedupeKey => some dedupeKey
  | _ => none

/-! ## What keeps a claim -/

/-- The claim of a key, and an item pending under it, are not older than a time. -/
structure ClaimedSince (t : ℤ) (key : String) (s : MasterContinuationScheduler) : Prop where
  claim : ∃ claimedAt, s.recentlyClaimedExternal.get key = some claimedAt ∧ t ≤ claimedAt
  pending : ∀ item, s.pendingByKey.get key = some item → t ≤ item.enqueuedAt

section

variable {t : ℤ} {key : String} {s : MasterContinuationScheduler}
  {items : List QueuedMasterContinuation}

/-- Claiming items leaves a claim that is not older than a time, if there was one or if an item of
the key is claimed, and if no item of the key was queued before the time. -/
theorem claim_recordAll {claimed : Table String ℤ}
    (hitems : ∀ item ∈ items, item.dedupeKey = key → t ≤ item.enqueuedAt)
    (h : (∃ claimedAt, claimed.get key = some claimedAt ∧ t ≤ claimedAt) ∨
      ∃ item ∈ items, item.dedupeKey = key ∧ item.reason.guardable = true) :
    ∃ claimedAt, (items.foldl recordExternalClaim claimed).get key = some claimedAt ∧
      t ≤ claimedAt := by
  induction items generalizing claimed with
  | nil =>
    rcases h with h | ⟨item, hitem, -⟩
    · exact h
    · cases hitem
  | cons item items ih =>
    rw [forall_mem_cons] at hitems
    apply ih hitems.2
    by_cases hkey : item.dedupeKey = key ∧ item.reason.guardable = true
    · -- this item leaves the claim
      refine .inl ⟨item.enqueuedAt, ?_, hitems.1 hkey.1⟩
      rw [recordExternalClaim, if_pos hkey.2, hkey.1, get_insert_self]
    · rcases h with ⟨claimedAt, hget, hle⟩ | ⟨item', hitem', hkey'⟩
      · refine .inl ⟨claimedAt, ?_, hle⟩
        rw [recordExternalClaim]
        split_ifs with hguard
        · rw [get_insert_of_ne _ _ fun heq => hkey ⟨heq.symm, hguard⟩, hget]
        · exact hget
      · rcases mem_cons.mp hitem' with rfl | hmem
        · exact absurd hkey' hkey
        · exact .inr ⟨item', hmem, hkey'⟩

section

variable (h : ClaimedSince t key s)
include h

variable {now : ℤ}

theorem ClaimedSince.prune (hnow : now ≤ t + recentClaimGuardWindow) :
    ClaimedSince t key (s.pruneRecentlyClaimed now) := by
  obtain ⟨claimedAt, hget, hle⟩ := h.claim
  refine ⟨⟨claimedAt, ?_, hle⟩, h.pending⟩
  have hwithin : withinClaimWindow claimedAt now recentClaimGuardWindow = true := by
    rw [withinClaimWindow, decide_eq_true_eq]
    omega
  rw [pruneRecentlyClaimed, get_filter, hget, Option.filter_some, if_pos hwithin]

theorem ClaimedSince.insertItem (item : QueuedMasterContinuation)
    (hitem : item.dedupeKey = key → t ≤ item.enqueuedAt) :
    ClaimedSince t key (s.insertItem item) := by
  refine ⟨h.claim, fun item' hget => ?_⟩
  rw [MasterContinuationScheduler.insertItem] at hget
  simp only [get_insert] at hget
  split_ifs at hget with hkey
  · cases hget
    exact hitem hkey.symm
  · exact h.pending item' hget

theorem ClaimedSince.withoutClaim {key' : String} (hne : key' ≠ key) :
    ClaimedSince t key (s.withoutClaim key') := by
  refine ⟨?_, h.pending⟩
  rw [MasterContinuationScheduler.withoutClaim, get_erase, if_neg hne.symm]
  exact h.claim

theorem ClaimedSince.claimAll
    (hitems : ∀ item ∈ items, s.pendingByKey.get item.dedupeKey = some item) :
    ClaimedSince t key (s.claimAll items) := by
  constructor
  · apply claim_recordAll _ (.inl h.claim)
    rintro item hitem rfl
    exact h.pending item (hitems item hitem)
  · intro item hget
    simp only [MasterContinuationScheduler.claimAll, get_eraseAll] at hget
    split_ifs at hget
    exact h.pending item hget

theorem ClaimedSince.enqueueAt (request : MasterContinuationRequest) (hle : t ≤ now)
    (hnow : now ≤ t + recentClaimGuardWindow) : ClaimedSince t key (s.enqueueAt request now).1 := by
  rw [MasterContinuationScheduler.enqueueAt]
  cases s.pendingByKey.get request.stableDedupeKey with
  | some => exact h
  | none =>
    simp only
    split_ifs
    · exact h.prune hnow
    · -- an accepted item is queued now
      have hins := (h.prune hnow).insertItem ((s.pruneRecentlyClaimed now).itemOf request now)
        fun _ => hle
      exact ⟨hins.claim, hins.pending⟩

end

section

variable {runtimeState : MasterContinuationRuntimeState} {maxItems : ℕ}
  {sessionId profileId : String}
  {eligible : QueuedMasterContinuation → Bool} {item : QueuedMasterContinuation}
  {r : MasterContinuationScheduler × List QueuedMasterContinuation} (hwf : s.WellFormed)
  (hr : s.drainReadyForSessionIf runtimeState maxItems sessionId profileId eligible = r)
include hwf hr

theorem drainReadyForSessionIf_claims :
    r.1.pendingByKey = (s.claimAll r.2).pendingByKey ∧
      r.1.recentlyClaimedExternal = (s.claimAll r.2).recentlyClaimedExternal := by
  rw [← hr, drainReadyForSessionIf]
  split_ifs
  · exact ⟨rfl, rfl⟩
  · obtain ⟨-, herased, hrecorded, -, -⟩ := drainLoop_spec
      (wantedBy sessionId profileId eligible) maxItems hwf.distinct hwf.keyed
      s.recentlyClaimedExternal
    exact ⟨herased, hrecorded⟩

theorem mem_drained (hitem : item ∈ r.2) : s.pendingByKey.get item.dedupeKey = some item := by
  subst hr
  by_cases hidle : runtimeState.isIdleEligible = true
  · rw [hwf.drainReadyForSessionIf_eq hidle, ← hwf.queue_filter_eq_sorted] at hitem
    exact hwf.mem_queue.mp (mem_filter.mp (mem_of_mem_take hitem)).1
  · rw [drainReadyForSessionIf, if_pos (.inr (Bool.not_eq_true _ ▸ hidle))] at hitem
    cases hitem

theorem claimedSince_drain (hitem : item ∈ r.2) (hguard : item.reason.guardable = true)
    (hwait : t ≤ item.enqueuedAt) : ClaimedSince t item.dedupeKey r.1 := by
  obtain ⟨hpending, hclaims⟩ := drainReadyForSessionIf_claims hwf hr
  constructor
  · rw [hclaims]
    refine claim_recordAll (fun item' hitem' hkey => ?_) (.inr ⟨item, hitem, rfl, hguard⟩)
    -- an item handed over under the key is the item itself
    have hget := mem_drained hwf hr hitem'
    rw [hkey, mem_drained hwf hr hitem] at hget
    cases hget
    exact hwait
  · intro item' hget
    rw [hpending, claimAll, get_eraseAll, if_pos (mem_map_of_mem hitem)] at hget
    cases hget

end

section

variable (h : ClaimedSince t key s)
include h

/-- **One call** within the window that does not give up the key keeps its claim. -/
theorem ClaimedSince.step (hwf : s.WellFormed) {c : Call}
    (hclock : ∀ now ∈ c.clock, t ≤ now ∧ now ≤ t + recentClaimGuardWindow)
    (hkeep : c.forgets ≠ some key) : ClaimedSince t key (s.step c) := by
  -- Only the calls that forget the key drop its claim, and they are excluded.
  cases c with
  | enqueueAt request now =>
    obtain ⟨hle, hnow⟩ := hclock now rfl
    exact h.enqueueAt request hle hnow
  | cancel dedupeKey =>
    refine ⟨h.claim, fun item hget => h.pending item ?_⟩
    change (s.pendingByKey.erase dedupeKey).get key = some item at hget
    rw [get_erase] at hget
    split_ifs at hget
    exact hget
  | stampPersistedAttempt dedupeKey =>
    rw [MasterContinuationScheduler.step, MasterContinuationScheduler.apply, stampPersistedAttempt]
    cases hget : s.pendingByKey.get dedupeKey with
    | none => exact h
    | some item =>
      refine ⟨h.claim, fun item' hget' => ?_⟩
      simp only [get_insert] at hget'
      split_ifs at hget' with hk
      · cases hget'
        exact h.pending item (hk ▸ hget)
      · exact h.pending item' hget'
  | reinsert item =>
    have hne : item.dedupeKey ≠ key := fun heq => hkeep (congrArg some heq)
    rw [MasterContinuationScheduler.step, MasterContinuationScheduler.apply, reinsert]
    simp only
    split
    · exact h.withoutClaim hne
    · split_ifs
      · exact h.withoutClaim hne
      · exact (h.withoutClaim hne).insertItem _ fun heq => absurd heq hne
  | requeueTaken item =>
    have hne : item.dedupeKey ≠ key := fun heq => hkeep (congrArg some heq)
    rw [MasterContinuationScheduler.step, MasterContinuationScheduler.apply, requeueTaken]
    split
    · exact h.withoutClaim hne
    · exact (h.withoutClaim hne).insertItem _ fun heq => absurd heq hne
  | replacePendingPayload request now =>
    obtain ⟨hle, hnow⟩ := hclock now rfl
    have hne : request.stableDedupeKey ≠ key := fun heq => hkeep (congrArg some heq)
    have herased : ClaimedSince t key
        { s with pendingByKey := s.pendingByKey.erase request.stableDedupeKey } := by
      refine ⟨h.claim, fun item hget => h.pending item ?_⟩
      simp only [get_erase] at hget
      split_ifs at hget
      exact hget
    exact (herased.withoutClaim hne).enqueueAt request hle hnow
  | drainReadyForSessionIf runtimeState maxItems sessionId profileId eligible =>
    generalize hr : s.drainReadyForSessionIf runtimeState maxItems sessionId profileId eligible = r
    obtain ⟨hpending, hclaims⟩ := drainReadyForSessionIf_claims hwf hr
    have hclaimed := h.claimAll fun item hitem => mem_drained hwf hr hitem
    simp only [MasterContinuationScheduler.step, MasterContinuationScheduler.apply, hr]
    exact ⟨hclaims ▸ hclaimed.claim, hpending ▸ hclaimed.pending⟩
  | takePendingTerminalForScope =>
    apply h.claimAll
    intro item hitem
    obtain ⟨k, hk⟩ := mem_values.mp (mem_filter.mp hitem).1
    rw [hwf.keyed k item hk, hk]
  | clearRecentExternalClaim => exact h.withoutClaim fun heq => hkeep (congrArg some heq)

theorem ClaimedSince.afterEvents (hwf : s.WellFormed)
    {events : List Event}
    (hevents : ∀ e ∈ events, (∀ now ∈ e.call.clock, t ≤ now ∧ now ≤ t + recentClaimGuardWindow) ∧
      e.call.forgets ≠ some key) :
    ClaimedSince t key (afterEvents s events) := by
  induction events generalizing s with
  | nil => exact h
  | cons e events ih =>
    obtain ⟨he, hevents⟩ := forall_mem_cons.mp hevents
    exact ih (h.step hwf he.1 he.2) (hwf.afterStep e.call) hevents

variable {u : ℤ}

theorem ClaimedSince.visible (hu : u ≤ t + recentClaimGuardWindow) {keyPrefix : String}
    (hpre : keyPrefix.toList <+: key.toList) :
    s.hasRecentExternalClaimWithPrefix keyPrefix u = true := by
  obtain ⟨claimedAt, hget, hle⟩ := h.claim
  rw [hasRecentExternalClaimWithPrefix, any_eq_true]
  refine ⟨(key, claimedAt), mem_entries.mpr hget, ?_⟩
  rw [Bool.and_eq_true, List.isPrefixOf_iff_prefix, withinClaimWindow, decide_eq_true_eq]
  exact ⟨hpre, by omega⟩

theorem ClaimedSince.refuses
    (hu : u ≤ t + recentClaimGuardWindow) {request : MasterContinuationRequest}
    (hkey : request.stableDedupeKey = key) {kind : String}
    (hext : request.reason = .external kind) :
    ∃ existingId, (s.enqueueAt request u).2 = .duplicate key existingId := by
  rw [MasterContinuationScheduler.enqueueAt]
  cases s.pendingByKey.get request.stableDedupeKey with
  | some existing => exact ⟨existing.id, by rw [hkey]⟩
  | none =>
    obtain ⟨claimedAt, hget, hle⟩ := (h.prune hu).claim
    have hrefused : (s.pruneRecentlyClaimed u).refusedByClaim request u = true := by
      rw [refusedByClaim, hext, MasterContinuationReason.reclaimWindow, hkey, hget]
      simp only [withinClaimWindow, decide_eq_true_eq]
      omega
    refine ⟨0, ?_⟩
    simp [hrefused, hkey]

end

/-- **A claim stays visible**: an external item that is drained as soon as it is queued, and whose
key is not given up, is reported for 30 seconds under every prefix of its key, and an external
request for the key is refused. -/
theorem claim_stays_visible {earlier later : List Event} {t u : ℤ}
    {runtimeState : MasterContinuationRuntimeState} {maxItems : ℕ} {sessionId profileId : String}
    {eligible : QueuedMasterContinuation → Bool} {item : QueuedMasterContinuation} {kind : String}
    (hclock : Clocked (earlier ++
      ⟨t, .drainReadyForSessionIf runtimeState maxItems sessionId profileId eligible⟩ :: later))
    (hitem : item ∈ ((afterEvents new earlier).drainReadyForSessionIf runtimeState maxItems
      sessionId profileId eligible).2)
    (hext : item.reason = .external kind) (hwait : t ≤ item.enqueuedAt)
    (hlater : ∀ e ∈ later, e.now ≤ u ∧ e.call.forgets ≠ some item.dedupeKey)
    (hu : u ≤ t + recentClaimGuardWindow) :
    (∀ keyPrefix : String, keyPrefix.toList <+: item.dedupeKey.toList →
      (afterEvents new (earlier ++
        ⟨t, .drainReadyForSessionIf runtimeState maxItems sessionId profileId eligible⟩ ::
          later)).hasRecentExternalClaimWithPrefix keyPrefix u = true) ∧
    ∀ request : MasterContinuationRequest, request.stableDedupeKey = item.dedupeKey →
      (∃ kind, request.reason = .external kind) →
      ∃ existingId, ((afterEvents new (earlier ++
        ⟨t, .drainReadyForSessionIf runtimeState maxItems sessionId profileId eligible⟩ ::
          later)).enqueueAt request u).2 = .duplicate item.dedupeKey existingId := by
  have hwf : (Continuations.afterEvents new earlier).WellFormed := wellFormed_run _
  have hguard : item.reason.guardable = true := by rw [hext]; rfl
  have hdrain := claimedSince_drain hwf rfl hitem hguard hwait
  obtain ⟨hsorted, honTime⟩ := hclock
  obtain ⟨hfrom, -⟩ := pairwise_cons.mp (pairwise_append.mp hsorted).2.1
  have hkept : ClaimedSince t item.dedupeKey (Continuations.afterEvents new (earlier ++
      ⟨t, .drainReadyForSessionIf runtimeState maxItems sessionId profileId eligible⟩ ::
        later)) := by
    rw [Continuations.afterEvents, map_append, runSteps_append]
    have hwf' := hwf.afterStep
      (.drainReadyForSessionIf runtimeState maxItems sessionId profileId eligible)
    refine hdrain.afterEvents hwf' fun e he => ⟨fun now hnow => ?_, (hlater e he).2⟩
    -- a later call is given a time between the drain and the end
    have htime : now = e.now := honTime e (by simp [he]) now hnow
    rw [htime]
    exact ⟨hfrom e he, (hlater e he).1.trans hu⟩
  refine ⟨fun keyPrefix hpre => hkept.visible hu hpre, ?_⟩
  rintro request hkey ⟨kind', hext'⟩
  exact hkept.refuses hu hkey hext'

end

def wakeUp : Event := ⟨0, .enqueueAt (requestFor (.external "wake") "wake/s/1") 0⟩

def drainAt (now : ℤ) : Event := ⟨now, drainOne⟩

def wakeUpItem : QueuedMasterContinuation :=
  new.itemOf (requestFor (.external "wake") "wake/s/1") 0

/-- Another wake-up, 20 s later; the call prunes the claims. -/
def laterWakeUp : Event :=
  ⟨20 * 10 ^ 9, .enqueueAt (requestFor (.external "wake") "other/s/2") (20 * 10 ^ 9)⟩

theorem claim_stays_visible_wakeUp :
    let s := afterEvents new [wakeUp, drainAt 0, laterWakeUp]
    s.hasRecentExternalClaimWithPrefix "wake/s/" (30 * 10 ^ 9) = true ∧
      ∃ existingId, (s.enqueueAt (requestFor (.external "wake") "wake/s/1") (30 * 10 ^ 9)).2 =
        .duplicate wakeUpItem.dedupeKey existingId := by
  have hclock : Clocked ([wakeUp] ++ drainAt 0 :: [laterWakeUp]) :=
    ⟨by decide, by simp [wakeUp, laterWakeUp, drainAt, drainOne, Call.clock]⟩
  have hitem : wakeUpItem ∈
      ((afterEvents new [wakeUp]).drainReadyForSessionIf .idle 1 "s" "p" fun _ => true).2 := by
    decide
  obtain ⟨hvisible, hrefused⟩ := @claim_stays_visible [wakeUp] [laterWakeUp] 0 (30 * 10 ^ 9) .idle
    1 "s" "p" (fun _ => true) wakeUpItem "wake" hclock hitem rfl (by decide) (by decide) (by decide)
  exact ⟨hvisible "wake/s/" (by decide),
    hrefused (requestFor (.external "wake") "wake/s/1") rfl ⟨"wake", rfl⟩⟩

/-- A wake-up that is drained after 31 s is not reported at that time, and is accepted again. -/
theorem waited_claim_is_invisible :
    wakeUpItem ∈
        ((afterEvents new [wakeUp]).drainReadyForSessionIf .idle 1 "s" "p" fun _ => true).2 ∧
      (afterEvents new [wakeUp, drainAt (31 * 10 ^ 9)]).hasRecentExternalClaimWithPrefix "wake/s/"
        (31 * 10 ^ 9) = false ∧
      ((afterEvents new [wakeUp, drainAt (31 * 10 ^ 9)]).enqueueAt
        (requestFor (.external "wake") "wake/s/1") (31 * 10 ^ 9)).2.queuedItem.isSome = true := by
  decide

end Octos.Continuations
