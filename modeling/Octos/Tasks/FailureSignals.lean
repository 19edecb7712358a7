import Octos.Tasks.Books
import Octos.Tasks.Rows

/-!
# Failure signals, exactly once

A task that fails owes its listener one signal, once the tool call that started it has been
acknowledged. The failure, the look at the acknowledgements and the callback are sections of their
own, and what waits for an acknowledgement is taken out by the thread that brings it. The signal is
then always in one place: with the thread that has failed the task, in the book of the pending
failures, with the thread that delivers it, or delivered. So the number of these places is one for a
failed task and none for any other.

One thing loses a signal: its text. The alternatives that an error text offers are looked for in the
lowercased text and cut out of the text itself, at the same byte. When the two differ in length
before the marker the cut can fall into a character or behind the end. Then the thread panics after
the task has failed, and before anybody has been told.

## Main results

* `Accounted.next`: a section keeps the account of a task
* `failure_signalled_once`: when a failure with a readable text is signalled
-/

namespace Octos.Tasks

open Act List Option World

/-! ## Transitions and registrations -/

/-- The section does not complete or cancel the task, and is not one of a reader of the ledger. -/
def Act.spares (id : TaskId) : Act → Bool
  | .mark id' (.completed _) => id' != id
  | .mark id' .cancelled => id' != id
  | .drainPendingFailure id' => id' != id
  | a => !a.readsLedger

section

variable {cfg : Config} {r : Reading} {w : World} {a b : Act} {id k : TaskId} {m : Mark}
  {t t' : BackgroundTask}

theorem Act.readsLedger_of_spares (ha : a.spares id = true) : a.readsLedger = false := by
  cases a <;> first | rfl | cases ha

theorem Follows.spares (h : Follows cfg w a b) (ha : a.spares id = true)
    (hkeyed : ∀ k t, w.getTask k = some t → t.id = k) : b.spares id = true := by
  cases h with
  | @drain k m t t' hget happly hm =>
    rw [spares, (m.apply_sameTask happly).1.id, hkeyed k t hget]
    rcases hm with ⟨files, rfl⟩ | rfl <;> exact ha
  | merge | install | refresh | refreshTask => cases ha
  | _ => rfl

variable (id t t') in
/-- A failure leaves the signal in the hands of the thread that has failed the task, the first
time. -/
theorem sum_claims_followUp (hm : m.settles = false ∨
    ∃ error observed, m = .failed error observed) :
    ((m.followUp t t').map (claims id)).sum =
        (if m.settles = true ∧ t.status ≠ .failed then (Act.notifyFailure t').claims id else 0) ∧
      ((m.followUp t t').map (invokes id)).sum = 0 := by
  cases m with
  | completed | cancelled => rcases hm with hm | ⟨error, observed, hm⟩ <;> cases hm
  | failed =>
    by_cases hfailed : t.status = .failed
    · simp [Mark.followUp, hfailed, claims, invokes]
    · simp [Mark.followUp, hfailed, Act.claims, Act.invokes, Mark.settles]
  | _ => exact ⟨rfl, rfl⟩

/-- What follows a transition of another task has nothing to do with the signal of this one. -/
theorem claims_followUp_of_ne (hne : t'.id ≠ id) (hb : b ∈ m.followUp t t') :
    b.claims id = 0 ∧ b.invokes id = 0 := by
  cases m <;> simp only [Mark.followUp] at hb
  case failed error observed =>
    rcases mem_cons.mp hb with rfl | hb
    · exact ⟨rfl, rfl⟩
    · split_ifs at hb
      · cases hb
      · rw [mem_singleton.mp hb]
        exact ⟨if_neg fun h => hne h.1, rfl⟩
  case completed outputFiles => rcases mem_pair.mp hb with rfl | rfl <;> exact ⟨rfl, rfl⟩
  case cancelled => rcases mem_pair.mp hb with rfl | rfl <;> exact ⟨rfl, rfl⟩
  all_goals
    rw [mem_singleton.mp hb]
    exact ⟨rfl, rfl⟩

theorem sum_eq_zero_of_forall {f : Act → ℕ} {acts : List Act} (h : ∀ b ∈ acts, f b = 0) :
    (acts.map f).sum = 0 := by
  refine List.sum_eq_zero fun n hn => ?_
  obtain ⟨b, hb, rfl⟩ := mem_map.mp hn
  exact h b hb

theorem failureCount_some (h : w.getTask id = some t) :
    w.failureCount id = if t.status = .failed ∧ t.toolCallId ≠ "" then 1 else 0 := by
  rw [failureCount, h]
  rfl

/-- **A transition fails the task and puts its signal in hand, or does neither.** -/
theorem balance_mark (hget : w.getTask k = some t) (happly : m.apply w.process.clock t = some t')
    (hkeyed : t.id = k) (hspares : (mark k m).spares id = true) :
    ((m.followUp t t').map (claims id)).sum + w.failureCount id =
        (w.setTasks (w.supervisor.tasks.insert k t')).failureCount id ∧
      ((m.followUp t t').map (invokes id)).sum = 0 := by
  have hsame := (m.apply_sameTask happly).1
  by_cases hk : id = k
  · subst hk
    have hafter : (w.setTasks (w.supervisor.tasks.insert id t')).getTask id = some t' :=
      Table.get_insert_self ..
    rw [failureCount_some hget, failureCount_some hafter, hsame.toolCallId]
    have hkind : m.settles = false ∨ ∃ error observed, m = .failed error observed := by
      cases m with
      | completed | cancelled => exact absurd hspares (by simp [spares])
      | failed error observed => exact .inr ⟨error, observed, rfl⟩
      | _ => exact .inl rfl
    obtain ⟨hclaims, hinvokes⟩ := sum_claims_followUp id t t' hkind
    refine ⟨?_, hinvokes⟩
    rw [hclaims]
    rcases hkind with hopen | ⟨error, observed, rfl⟩
    · simp [hopen, m.failed_iff_of_apply happly hopen]
    · have hstatus : t'.status = .failed := (Mark.apply_status happly).1
      have hid : t'.id = id := hsame.id.trans hkeyed
      by_cases hfailed : t.status = .failed
      · simp [hfailed, hstatus]
      · simp [hfailed, hstatus, hid, Act.claims, hsame.toolCallId, Mark.settles]
  · have hne : t'.id ≠ id := fun h => hk (by rw [← h, hsame.id, hkeyed])
    have hzero := fun b (hb : b ∈ m.followUp t t') => claims_followUp_of_ne hne hb
    rw [sum_eq_zero_of_forall fun b hb => (hzero b hb).1,
      sum_eq_zero_of_forall fun b hb => (hzero b hb).2]
    refine ⟨?_, rfl⟩
    rw [Nat.zero_add, failureCount, failureCount, getTask_setTasks, Table.get_insert_of_ne _ _ hk]
    rfl

variable (id) in
theorem Follows.claims_eq_zero (h : Follows cfg w a b) (ha : a.isQuiet = true)
    (hmark : ∀ k m, a ≠ .mark k m) : b.claims id = 0 ∧ b.invokes id = 0 := by
  cases h with
  | notify => exact absurd rfl (hmark _ _)
  | dispatch | invoke | deliver => cases ha
  | _ => exact ⟨rfl, rfl⟩

theorem balance_of_isQuiet (cfg : Config) (r : Reading) (ha : a.isQuiet = true)
    (hspares : a.spares id = true)
    (hkeyed : ∀ k t, w.getTask k = some t → t.id = k ∧ k < w.process.nextId) :
    (((perform cfg r w a).2.getD []).map (claims id)).sum + w.failureCount id =
        (perform cfg r w a).1.failureCount id ∧
      (((perform cfg r w a).2.getD []).map (invokes id)).sum = 0 := by
  by_cases hmark : ∃ k m, a = .mark k m
  · obtain ⟨k, m, rfl⟩ := hmark
    rw [perform]
    rcases markSection_cases w k m with ⟨hsame, -⟩ | ⟨t, t', hget, happly, hout⟩
    · rw [hsame]
      exact ⟨Nat.zero_add _, rfl⟩
    · rw [hout]
      exact balance_mark hget happly (hkeyed k t hget).1 hspares
  · have hzero := fun b (hb : b ∈ (perform cfg r w a).2.getD []) =>
      (follows_perform hb).claims_eq_zero id ha fun k m h => hmark ⟨k, m, h⟩
    rw [sum_eq_zero_of_forall fun b hb => (hzero b hb).1,
      sum_eq_zero_of_forall fun b hb => (hzero b hb).2]
    refine ⟨(Nat.zero_add _).trans ?_, rfl⟩
    rcases tasks_perform cfg r w a with
      hsame | ⟨k, m, t, t', h, -⟩ | ⟨req, rfl, htasks, -⟩ | hmerges
    · rw [failureCount, failureCount, getTask, getTask, hsame]
    · exact absurd ⟨k, m, h⟩ hmark
    · -- a new task has not failed, and there was none under its id
      rw [failureCount, failureCount, getTask, getTask, htasks, Table.get_insert]
      split_ifs with hid
      · cases hget : w.supervisor.tasks.get id with
        | none => rfl
        | some t => exact absurd (hkeyed id t hget).2 (by rw [hid]; exact lt_irrefl _)
      · rfl
    · have hunread := readsLedger_of_spares hspares
      rw [readsLedger_of_merges hmerges] at hunread
      cases hunread

end

/-! ## The account of a task -/

/-- **The signal of a failed task is in one place**: in the hands of a thread, pending, or
delivered. What is pending waits for an acknowledgement that has not come, and what is on its way
has been acknowledged. -/
structure Accounted (cfg : Config) (id : TaskId) (w : World) (acts : List Act) : Prop where
  spares : ∀ a ∈ acts, a.spares id = true
  readable : ∀ t, Act.notifyFailure t ∈ acts → Readable cfg.lower (t.error.getD "")
  keyed : ∀ k t, w.getTask k = some t → t.id = k ∧ k < w.process.nextId
  ids : ∀ entry ∈ w.supervisor.ackAndPending.pending, entry.2.signal.taskId = entry.1
  stash : w.supervisor.ackAndPending.pending.length ≤ w.deferralCount
  balance : (acts.map (claims id)).sum + (acts.map (invokes id)).sum + w.pendingCount id +
    w.signalCount id = w.failureCount id
  emitted : id ∈ w.supervisor.ackAndPending.emittedTaskIds →
    0 < (acts.map (invokes id)).sum + w.signalCount id
  notified : ∀ t, Act.notifyFailure t ∈ acts → t.id = id → w.callOf id = some t.toolCallId
  waiting : ∀ entry ∈ w.supervisor.ackAndPending.pending, entry.1 = id →
    w.callOf id = some entry.2.toolCallId ∧ w.isAcked entry.2.toolCallId = false
  dispatched : ∀ signal, dispatchFailureSignal signal ∈ acts → signal.taskId = id →
    ∃ call, w.callOf id = some call ∧ w.isAcked call = true
  invoked : 0 < (acts.map (invokes id)).sum + w.signalCount id →
    ∃ call, w.callOf id = some call ∧ w.isAcked call = true

section

variable {cfg : Config} {r : Reading} {w : World} {acts acts' new : List Act} {a : Act}
  {id : TaskId}

theorem Accounted.advance (h : Accounted cfg id w acts) (tick : ℕ) :
    Accounted cfg id (w.advance tick) acts :=
  ⟨h.spares, h.readable, h.keyed, h.ids, h.stash, h.balance, h.emitted, h.notified, h.waiting,
    h.dispatched, h.invoked⟩

theorem callOf_perform (cfg : Config) (r : Reading) (ha : a.readsLedger = false)
    (hkeyed : ∀ k t, w.getTask k = some t → t.id = k ∧ k < w.process.nextId) {call : String}
    (h : w.callOf id = some call) : (perform cfg r w a).1.callOf id = some call := by
  obtain ⟨t₀, hget₀, rfl⟩ := map_eq_some_iff.mp h
  rcases tasks_perform cfg r w a with hsame | ⟨k, m, t, t', rfl, hget, happly, hperform⟩ |
    ⟨req, rfl, htasks, -⟩ | hmerges
  · rw [callOf, getTask, hsame]
    exact h
  · rw [hperform, callOf, getTask_setTasks, Table.get_insert]
    split_ifs with hk
    · subst hk
      obtain rfl : t = t₀ := some.inj (hget.symm.trans hget₀)
      exact congrArg some (m.apply_sameTask happly).1.toolCallId
    · exact h
  · -- the id of a new task is not that of an old one
    have hne : id ≠ w.process.nextId := (hkeyed id t₀ hget₀).2.ne
    rw [callOf, getTask, htasks, Table.get_insert_of_ne _ _ hne]
    exact h
  · rw [readsLedger_of_merges hmerges] at ha
    cases ha

theorem keyed_lt_perform (cfg : Config) (r : Reading) (ha : a.readsLedger = false)
    (hkeyed : ∀ k t, w.getTask k = some t → t.id = k ∧ k < w.process.nextId) (k : TaskId)
    (t : BackgroundTask) (h : (perform cfg r w a).1.getTask k = some t) :
    t.id = k ∧ k < (perform cfg r w a).1.process.nextId := by
  refine ⟨keyed_perform (fun k t ht => (hkeyed k t ht).1) k t h, ?_⟩
  have hids := (process_perform cfg r w a).2.1
  rcases tasks_perform cfg r w a with hsame | ⟨k', m, t₀, t', rfl, hget, happly, hperform⟩ |
    ⟨req, rfl, htasks, hnextId⟩ | hmerges
  · rw [getTask, hsame] at h
    exact (hkeyed k t h).2.trans_le hids
  · rw [hperform, getTask_setTasks, Table.get_insert] at h
    split_ifs at h with hk
    · rw [hk]
      exact (hkeyed k' t₀ hget).2.trans_le hids
    · exact (hkeyed k t h).2.trans_le hids
  · rw [getTask, htasks, Table.get_insert] at h
    split_ifs at h with hk
    · rw [hk, hnextId]
      exact Nat.lt_succ_self _
    · exact (hkeyed k t h).2.trans_le hids
  · rw [readsLedger_of_merges hmerges] at ha
    cases ha

theorem tasks_of_not_isQuiet (cfg : Config) (r : Reading) (w : World) (ha : a.isQuiet = false) :
    (perform cfg r w a).1.supervisor.tasks = w.supervisor.tasks := by
  rcases tasks_perform cfg r w a with hsame | ⟨k, m, t, t', rfl, -⟩ | ⟨req, rfl, -⟩ | hmerges
  · exact hsame
  · cases ha
  · cases ha
  · cases a <;> cases ha <;> cases hmerges

theorem books_of_isQuiet (cfg : Config) (r : Reading) (w : World) (ha : a.isQuiet = true) :
    (∃ new, (perform cfg r w a).2 = some new) ∧
      (perform cfg r w a).1.supervisor.ackAndPending = w.supervisor.ackAndPending := by
  have h := bookkeeping_perform cfg r w a
  generalize perform cfg r w a = out at h
  cases h with
  | quiet _ hbooks => exact ⟨⟨_, rfl⟩, hbooks⟩
  | unnamed => cases ha
  | _ => cases ha

/-- A section that has the signal in hand finds the task not signalled, and its failure not
pending. -/
theorem Accounted.claim (h : Accounted cfg id w acts) (hmem : a ∈ acts)
    (hclaims : a.claims id ≠ 0) :
    id ∉ w.supervisor.ackAndPending.emittedTaskIds ∧ w.pendingCount id = 0 := by
  have hle : a.claims id ≤ (acts.map (claims id)).sum := le_sum_of_mem (mem_map_of_mem hmem)
  have hbalance := h.balance
  have hone := w.failureCount_le id
  refine ⟨fun hemitted => ?_, by omega⟩
  have hpositive := h.emitted hemitted
  omega

theorem Accounted.room (h : Accounted cfg id w acts)
    (hbound : (perform cfg r w a).1.deferralCount ≤ maxPendingFailures) :
    (perform cfg r w a).1.deferralCount ≤ w.deferralCount ∨
      w.supervisor.ackAndPending.pending.length < maxPendingFailures := by
  have hstash := h.stash
  omega

theorem Accounted.balanced (h : Accounted cfg id w acts) (hmem : a ∈ acts)
    (hbound : (perform cfg r w a).1.deferralCount ≤ maxPendingFailures) :
    ∃ new, (perform cfg r w a).2 = some new ∧
      (new.map (Act.claims id)).sum + (new.map (Act.invokes id)).sum +
          (perform cfg r w a).1.pendingCount id + w.failureCount id =
        a.claims id + w.pendingCount id + (perform cfg r w a).1.failureCount id := by
  have hspares := h.spares a hmem
  cases ha : a.isQuiet with
  | true =>
    obtain ⟨⟨new, hnew⟩, hbooks⟩ := books_of_isQuiet cfg r w ha
    obtain ⟨hclaims, hinvokes⟩ := balance_of_isQuiet cfg r ha hspares h.keyed
    have hpending : (perform cfg r w a).1.pendingCount id = w.pendingCount id := by
      rw [pendingCount, hbooks]
      rfl
    rw [hnew, getD_some] at hclaims hinvokes
    refine ⟨new, hnew, ?_⟩
    rw [hpending, (claims_eq_zero_of_isQuiet ha).1]
    omega
  | false =>
    have htext : ∀ t, a = .notifyFailure t → Readable cfg.lower (t.error.getD "") := by
      rintro t rfl
      exact h.readable t hmem
    have hdrain : a ≠ .drainPendingFailure id := by
      rintro rfl
      simp [Act.spares] at hspares
    have hfailure : (perform cfg r w a).1.failureCount id = w.failureCount id := by
      rw [failureCount, getTask, tasks_of_not_isQuiet cfg r w ha]
      rfl
    obtain ⟨new, hnew, hbalance⟩ :=
      balance_of_bookkeeping (bookkeeping_perform cfg r w a) ha htext hdrain
      h.ids (h.claim hmem) (h.room hbound)
    exact ⟨new, hnew, by rw [hfailure]; omega⟩

/-- A signal is sent on its way by the thread that has failed the task, if its tool call has been
acknowledged, or by the thread that has taken the failure out of the book. -/
theorem Follows.invokes {b : Act} (h : Follows cfg w a b) (hb : b.invokes id ≠ 0) :
    (∃ t, a = .notifyFailure t ∧ t.id = id ∧ w.isAcked t.toolCallId = true) ∨
      ∃ signal, a = .dispatchFailureSignal signal ∧ signal.taskId = id := by
  cases h with
  | @invoke t alternatives hacked =>
    refine .inl ⟨t, rfl, ?_, contains_iff_mem.mpr hacked⟩
    by_contra hne
    exact hb (if_neg hne)
  | @deliver signal =>
    refine .inr ⟨signal, rfl, ?_⟩
    by_contra hne
    exact hb (if_neg hne)
  | _ => exact absurd rfl hb

/-- **A section keeps the account of the task.** -/
theorem Accounted.next (h : Accounted cfg id w acts) (hmem : a ∈ acts)
    (htext : ∀ k error observed, a = .mark k (.failed error observed) → Readable cfg.lower error)
    (hbound : (perform cfg r w a).1.deferralCount ≤ maxPendingFailures)
    (hnew : (perform cfg r w a).2 = some new)
    (hacts : ∀ b ∈ acts', b ∈ acts ∨ b ∈ new)
    (hclaims : (acts'.map (Act.claims id)).sum + a.claims id =
      (acts.map (Act.claims id)).sum + (new.map (Act.claims id)).sum)
    (hinvokes : (acts'.map (Act.invokes id)).sum + a.invokes id =
      (acts.map (Act.invokes id)).sum + (new.map (Act.invokes id)).sum) :
    Accounted cfg id (perform cfg r w a).1 acts' := by
  have hbook := bookkeeping_perform cfg r w a
  have hspares := h.spares a hmem
  have hunread := Act.readsLedger_of_spares hspares
  have hroom := h.room hbound
  have hsignals := signalCount_of_bookkeeping hbook id
  have hfollows : ∀ b ∈ new, Follows cfg w a b := by
    intro b hb
    apply follows_perform
    rw [hnew]
    exact hb
  -- what has been established about the tool call of the task stays
  have hcall : ∀ {call}, w.callOf id = some call → (perform cfg r w a).1.callOf id = some call :=
    callOf_perform cfg r hunread h.keyed
  have hcleared : (∃ call, w.callOf id = some call ∧ w.isAcked call = true) →
      ∃ call, (perform cfg r w a).1.callOf id = some call ∧
        (perform cfg r w a).1.isAcked call = true := by
    rintro ⟨call, hof, hacked⟩
    exact ⟨call, hcall hof, (isAcked_of_bookkeeping hbook call).mpr (.inl hacked)⟩
  refine ⟨fun b hb => ?_, fun t ht => ?_, keyed_lt_perform cfg r hunread h.keyed,
    fun entry hentry => ?_,
    pending_le_of_bookkeeping hbook hbound h.stash, ?_, fun hid => ?_, fun t ht hid => ?_,
    fun entry hentry hid => ?_, fun signal hsignal hid => ?_, fun hpositive => ?_⟩
  · rcases hacts b hb with hb | hb
    · exact h.spares b hb
    · exact (hfollows b hb).spares hspares fun k t ht => (h.keyed k t ht).1
  · rcases hacts _ ht with ht | ht
    · exact h.readable t ht
    · cases hfollows _ ht with
      | notify hget happly =>
        rw [Mark.error_of_apply happly]
        exact htext _ _ _ rfl
  · rcases mem_pending_of_bookkeeping hbook hroom hentry with
      ⟨hold, -⟩ | ⟨t, alternatives, -, rfl, -⟩
    · exact h.ids entry hold
    · rfl
  · obtain ⟨new', hnew', hbalanced⟩ := h.balanced hmem hbound
    obtain rfl : new = new' := some.inj (hnew.symm.trans hnew')
    have hbalance := h.balance
    omega
  · rcases emitted_of_bookkeeping hbook hid with hold | ⟨b, hb, hone⟩
    · have hpositive := h.emitted hold
      omega
    · rw [hnew] at hb
      have hle : b.invokes id ≤ (new.map (Act.invokes id)).sum := le_sum_of_mem (mem_map_of_mem hb)
      omega
  · rcases hacts _ ht with ht | ht
    · exact hcall (h.notified t ht hid)
    · cases hfollows _ ht with
      | @notify k error observed t₀ _ hget happly hfirst =>
        have hsame := (Mark.apply_sameTask happly).1
        have hk : k = id := by rw [← hid, hsame.id, (h.keyed k t₀ hget).1]
        refine hcall ?_
        rw [callOf, ← hk, hget, hsame.toolCallId]
        rfl
  · rcases mem_pending_of_bookkeeping hbook hroom hentry with
      ⟨hold, hkept⟩ | ⟨t, alternatives, rfl, rfl, hopen⟩
    · obtain ⟨hof, hopen⟩ := h.waiting entry hold hid
      refine ⟨hcall hof, ?_⟩
      rw [← Bool.not_eq_true, isAcked_of_bookkeeping hbook, hopen]
      exact fun hacked => hkept (hacked.resolve_left Bool.false_ne_true)
    · refine ⟨hcall (h.notified t hmem hid), ?_⟩
      rw [← Bool.not_eq_true, isAcked_of_bookkeeping hbook]
      rw [hopen]
      rintro (hacked | ⟨hmark, -⟩)
      · cases hacked
      · cases hmark
  · rcases hacts _ hsignal with hsignal | hsignal
    · exact hcleared (h.dispatched signal hsignal hid)
    · cases hfollows _ hsignal with
      | @dispatch call entry hentry hentryCall hname =>
        rw [h.ids entry hentry] at hid
        obtain ⟨hof, -⟩ := h.waiting entry hentry hid
        rw [hentryCall] at hof
        exact ⟨call, hcall hof, (isAcked_of_bookkeeping hbook call).mpr (.inr ⟨rfl, hname⟩)⟩
  · by_cases hold : 0 < (acts.map (Act.invokes id)).sum + w.signalCount id
    · exact hcleared (h.invoked hold)
    · -- the section itself has sent the signal on its way
      have hsome : ∃ b ∈ new, b.invokes id ≠ 0 := by
        by_contra hnone
        push Not at hnone
        rw [sum_eq_zero_of_forall hnone] at hinvokes
        omega
      obtain ⟨b, hb, hne⟩ := hsome
      rcases (hfollows b hb).invokes hne with ⟨t, rfl, hid, hacked⟩ | ⟨signal, rfl, hid⟩
      · exact hcleared ⟨_, h.notified t hmem hid, hacked⟩
      · exact hcleared (h.dispatched signal hmem hid)

end

/-! ## Runs -/

/-- The calls of a run that neither complete nor cancel the task and do not read the ledger. -/
def sparesTask (id : TaskId) : Move Call Reading → Bool
  | .spawn c => c.first.spares id
  | .run _ _ => true

def textsReadable (cfg : Config) (p : Pool World Act) : Move Call Reading → Bool
  | .spawn _ => true
  | .run i _ =>
    match p.next i with
    | some (.mark _ (.failed error _)) => decide (Readable cfg.lower error)
    | _ => true

section

variable {cfg : Config} {id : TaskId} {p : Pool World Act} {i : ℕ} {r : Reading} {a : Act}

theorem Accounted.spawn (h : Accounted cfg id p.shared p.acts) (c : Call)
    (hc : c.first.spares id = true) :
    Accounted cfg id (step cfg p (.spawn c)).shared (step cfg p (.spawn c)).acts := by
  -- a call begins with nothing in hand
  have hfirst : c.first.claims id = 0 ∧ c.first.invokes id = 0 := by
    cases c <;> exact ⟨rfl, rfl⟩
  have htotal : ∀ f : Act → ℕ, f c.first = 0 →
      ((step cfg p (.spawn c)).acts.map f).sum = (p.acts.map f).sum := by
    intro f hf
    refine (Pool.total_spawn f c).trans ?_
    rw [Call.start, map_singleton, sum_singleton, hf]
    rfl
  have hclaims := htotal _ hfirst.1
  have hinvokes := htotal _ hfirst.2
  have hacts : ∀ b ∈ (step cfg p (.spawn c)).acts, b ∈ p.acts ∨ b = c.first := by
    intro b hb
    exact (Pool.mem_acts_spawn.mp hb).imp_right mem_singleton.mp
  refine ⟨fun b hb => ?_, fun t ht => ?_, h.keyed, h.ids, h.stash, ?_, ?_, fun t ht => ?_,
    h.waiting, fun signal hsignal => ?_, ?_⟩
  · rcases hacts b hb with hb | rfl
    · exact h.spares b hb
    · exact hc
  · refine h.readable t ((hacts _ ht).resolve_right fun hfirst => ?_)
    cases c <;> cases hfirst
  · rw [hclaims, hinvokes]
    exact h.balance
  · rw [hinvokes]
    exact h.emitted
  · refine h.notified t ((hacts _ ht).resolve_right fun hfirst => ?_)
    cases c <;> cases hfirst
  · refine h.dispatched signal ((hacts _ hsignal).resolve_right fun hfirst => ?_)
    cases c <;> cases hfirst
  · rw [hinvokes]
    exact h.invoked

theorem Accounted.run (h : Accounted cfg id p.shared p.acts) (hnext : p.next i = some a)
    (htext : textsReadable cfg p (.run i r) = true)
    (hbound : (step cfg p (.run i r)).shared.deferralCount ≤ maxPendingFailures) :
    Accounted cfg id (step cfg p (.run i r)).shared (step cfg p (.run i r)).acts := by
  have hshared : (step cfg p (.run i r)).shared = (perform cfg r (p.shared.advance r.tick) a).1 :=
    Pool.shared_run hnext
  have hmem := Pool.mem_acts_of_next hnext
  have hnow := h.advance r.tick
  rw [hshared] at hbound ⊢
  obtain ⟨new, hnew, -⟩ := hnow.balanced hmem hbound
  refine hnow.next hmem (fun k error observed ha => ?_) hbound hnew (fun b hb => ?_)
    (Pool.total_run_some (claims id) hnext hnew) (Pool.total_run_some (invokes id) hnext hnew)
  · rw [textsReadable, hnext, ha] at htext
    exact of_decide_eq_true htext
  · refine (Pool.mem_acts_run hnext hb).imp_right fun hb => ?_
    rw [exec, hnew] at hb
    exact hb

theorem accounted_initial (cfg : Config) (id : TaskId) :
    Accounted cfg id initial.shared initial.acts where
  spares a ha := by cases ha
  readable t ht := by cases ht
  keyed k t ht := by cases ht
  ids := nofun
  stash := le_rfl
  balance := rfl
  emitted := nofun
  notified t ht := by cases ht
  waiting := nofun
  dispatched := nofun
  invoked := nofun

theorem deferralCount_step_le (cfg : Config) (p : Pool World Act) (move : Move Call Reading) :
    p.shared.deferralCount ≤ (step cfg p move).shared.deferralCount := by
  cases move with
  | spawn => exact le_rfl
  | run i r =>
    cases hnext : p.next i with
    | none => rw [step, Pool.step_run_none hnext]
    | some a =>
      rw [step, Pool.shared_run hnext]
      have hle :=
        deferralCount_le_of_bookkeeping (bookkeeping_perform cfg r (p.shared.advance r.tick) a)
      exact hle

theorem accounted_run {moves : List (Move Call Reading)}
    (hcalls : ∀ move ∈ moves, sparesTask id move = true)
    (htexts : Guarded (step cfg) (fun p move => textsReadable cfg p move = true) initial moves)
    (hbound : (runSteps (step cfg) initial moves).shared.deferralCount ≤ maxPendingFailures) :
    Accounted cfg id (runSteps (step cfg) initial moves).shared
      (runSteps (step cfg) initial moves).acts := by
  revert hbound
  refine ((guarded_of_forall initial hcalls).and htexts).invariant
    (P := fun p => p.shared.deferralCount ≤ maxPendingFailures → Accounted cfg id p.shared p.acts)
    (fun p move hp hok hbound => ?_) fun _ => accounted_initial cfg id
  have h := hp ((deferralCount_step_le cfg p move).trans hbound)
  cases move with
  | spawn c => exact h.spawn c hok.1
  | run i =>
    cases hnext : p.next i with
    | none =>
      rw [step, Pool.step_run_none hnext]
      exact h
    | some => exact h.run hnext hok.2 hbound

end

/-- **Failures are signalled exactly once.** In every run in which the texts of the failures are
readable and no more failures are put off than the book holds: the callback is called at most once
for a task that is not completed or cancelled, only for a failed task and only when its tool call
has been acknowledged; and when all calls have returned it has been called for a failed task with a
tool call exactly if that has been acknowledged. -/
theorem failure_signalled_once (cfg : Config) (id : TaskId) (moves : List (Move Call Reading))
    (hcalls : ∀ move ∈ moves, sparesTask id move = true)
    (htexts : Guarded (step cfg) (fun p move => textsReadable cfg p move = true) initial moves)
    (hbound : (runSteps (step cfg) initial moves).shared.deferralCount ≤ maxPendingFailures) :
    let p := runSteps (step cfg) initial moves
    p.shared.signalCount id ≤ 1 ∧
    (0 < p.shared.signalCount id → ∃ t, p.shared.getTask id = some t ∧ t.status = .failed ∧
      p.shared.isAcked t.toolCallId = true) ∧
    (p.acts = [] → ∀ t, p.shared.getTask id = some t → t.status = .failed → t.toolCallId ≠ "" →
      p.shared.signalCount id = if p.shared.isAcked t.toolCallId = true then 1 else 0) := by
  intro p
  have h : Accounted cfg id p.shared p.acts := accounted_run hcalls htexts hbound
  have hbalance := h.balance
  have hone := p.shared.failureCount_le id
  refine ⟨by omega, fun hpositive => ?_, fun hdone t hget hfailed hname => ?_⟩
  · obtain ⟨call, hof, hacked⟩ := h.invoked (Nat.lt_add_left _ hpositive)
    obtain ⟨t, hget, rfl⟩ := map_eq_some_iff.mp hof
    refine ⟨t, hget, ?_, hacked⟩
    -- a task that has not failed has no signal anywhere
    by_contra hopen
    rw [failureCount_some hget, if_neg fun hfailed => hopen hfailed.1] at hbalance
    omega
  · have hof : p.shared.callOf id = some t.toolCallId := by
      rw [World.callOf, hget]
      rfl
    rw [failureCount_some hget, if_pos ⟨hfailed, hname⟩, hdone] at hbalance
    simp only [map_nil, sum_nil, Nat.zero_add] at hbalance
    split_ifs with hacked
    · -- nothing waits for an acknowledgement that has come
      have hnone : p.shared.pendingCount id = 0 := by
        refine countP_eq_zero.mpr fun entry hentry hid => ?_
        obtain ⟨hcall, hopen⟩ := h.waiting entry hentry (beq_iff_eq.mp hid)
        rw [hof] at hcall
        rw [← some.inj hcall, hacked] at hopen
        cases hopen
      omega
    · by_contra hsome
      obtain ⟨call, hcall, hcalled⟩ := h.invoked (Nat.lt_add_left _ (Nat.pos_of_ne_zero hsome))
      rw [hof] at hcall
      rw [← some.inj hcall] at hcalled
      exact hacked hcalled

/-- A task fails with some text, and then its tool call is acknowledged. -/
def failsThenAcked (error : String) : List (Move Call Reading) :=
  Move.alone 0 (.register (detached "tc")) (Reading.after 1) 4 ++
    Move.alone 1 (.mark 0 (.failed error false)) (Reading.after 1) 3 ++
    Move.alone 2 (.markSynthAckEmitted "tc") (Reading.after 1) 3

/-- The failure waits for its acknowledgement, and is signalled when it comes. -/
theorem failure_signalled_once_failsThenAcked :
    let p := runSteps (step (configOf 1 Nat.one_pos)) initial (failsThenAcked "out of disk")
    p.shared.deferralCount = 1 ∧ p.shared.signalCount 0 = 1 := by
  intro p
  have hbound : p.shared.deferralCount = 1 := by decide +kernel
  have hdone : p.threads.flatten.length = 0 := by decide +kernel
  have hcopy : (p.shared.getTask 0).map (fun t => (t.status, t.toolCallId)) =
      some (.failed, "tc") := by
    decide +kernel
  have hacked : p.shared.isAcked "tc" = true := by decide +kernel
  obtain ⟨t, hget, hpair⟩ := map_eq_some_iff.mp hcopy
  obtain ⟨hfailed, hcall⟩ := Prod.mk.inj hpair
  have honce := failure_signalled_once (configOf 1 Nat.one_pos) 0 (failsThenAcked "out of disk")
    (by decide +kernel) (by decide +kernel) (hbound.le.trans (by decide))
  have hcount := honce.2.2 (eq_nil_of_length_eq_zero hdone) t hget hfailed (by rw [hcall]; decide)
  rw [hcall, if_pos hacked] at hcount
  exact ⟨hbound, hcount⟩

/-- The lower case of this text is one byte longer, so the marker ends behind the text. -/
def dottedError : String := String.ofList (Char.ofNat 0x130 :: " available:".toList)

/-- **A failure whose text cannot be cut is not signalled**: the task has failed and its tool call
has been acknowledged, all calls are over, and the callback has not been called. -/
theorem unreadable_failure_unsignalled :
    let p := runSteps (step (configOf 1 Nat.one_pos)) initial (failsThenAcked dottedError)
    (p.shared.getTask 0).map (fun t => (t.status, t.toolCallId)) = some (.failed, "tc") ∧
      p.shared.isAcked "tc" = true ∧ p.threads.flatten.length = 0 ∧ p.shared.deferralCount = 0 ∧
      p.shared.signalCount 0 = 0 := by
  decide +kernel

end Octos.Tasks
