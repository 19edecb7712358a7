import Octos.Tasks.Sections

/-!
# Keeping the books of failure signals

What a critical section does to the books and the log of a supervisor, said once, and where the
signal of a task is after it. A signal that a section has in hand goes to the section that it leaves
to its thread, or into the book of the pending failures; only a panic loses it.
-/

namespace Octos.Tasks

open AckAndPending Act List World

/-! ## Counts -/

/-- The signal of a task has gone out. -/
def Event.isSignal (id : TaskId) : Event → Bool
  | .signalled signal => signal.taskId = id
  | _ => false

/-- A failure has been put off until its tool call is acknowledged. -/
def Event.isDeferral : Event → Bool
  | .deferred _ => true
  | _ => false

namespace World

variable (w : World)

/-- How often the callback has been called for a task. -/
def signalCount (id : TaskId) : ℕ := w.supervisor.log.countP (Event.isSignal id)

def deferralCount : ℕ := w.supervisor.log.countP Event.isDeferral

def pendingCount (id : TaskId) : ℕ := w.supervisor.ackAndPending.pending.countP (·.1 == id)

/-- `was_synth_ack_emitted`. -/
def isAcked (toolCallId : String) : Bool :=
  w.supervisor.ackAndPending.synthAckEmittedToolCallIds.contains toolCallId

def callOf (id : TaskId) : Option String := (w.getTask id).map (·.toolCallId)

/-- One for a task that has failed and has a tool call. -/
def failureCount (id : TaskId) : ℕ :=
  (w.getTask id).elim 0 fun t => if t.status = .failed ∧ t.toolCallId ≠ "" then 1 else 0

theorem failureCount_le (id : TaskId) : w.failureCount id ≤ 1 := by
  rw [failureCount]
  cases w.getTask id with
  | none => exact Nat.zero_le 1
  | some =>
    dsimp only [Option.elim_some]
    split_ifs
    · exact le_rfl
    · exact Nat.zero_le 1

end World

/-- The section has still to decide whether the signal of the task goes out. -/
def Act.claims (id : TaskId) : Act → ℕ
  | .notifyFailure t => if t.id = id ∧ t.toolCallId ≠ "" then 1 else 0
  | .dispatchFailureSignal signal => if signal.taskId = id then 1 else 0
  | _ => 0

/-- The section delivers the signal of the task. -/
def Act.invokes (id : TaskId) : Act → ℕ
  | .invokeFailureCallback signal => if signal.taskId = id then 1 else 0
  | _ => 0

/-! ## The books and the log -/

/-- The section leaves the books alone. -/
def Act.isQuiet : Act → Bool
  | .notifyFailure _ => false
  | .dispatchFailureSignal _ => false
  | .invokeFailureCallback _ => false
  | .markSynthAckEmitted _ => false
  | .drainPendingFailure _ => false
  | _ => true

/-- The world in which a task counts as signalled. -/
def World.emit (w : World) (signal : SpawnOnlyFailureSignal) : World :=
  (w.setBooks (w.supervisor.ackAndPending.markEmitted signal.taskId).2).report
    (.emitted signal.taskId)

/-- The world in which a failure waits for its acknowledgement. -/
def World.defer (w : World) (t : BackgroundTask) (alternatives : List String) : World :=
  (w.setBooks (w.supervisor.ackAndPending.insertPending t.id
    ⟨t.toolCallId, failureSignal t alternatives⟩)).report (.deferred t.id)

/-- The books after an acknowledgement, with what has waited for it. -/
def AckAndPending.acknowledge (books : AckAndPending) (toolCallId : String) :
    List (TaskId × PendingFailure) × AckAndPending :=
  ({ books with
    synthAckEmittedToolCallIds :=
      toolCallId :: books.synthAckEmittedToolCallIds.filter (· ≠ toolCallId) } :
    AckAndPending).drainPendingForToolCall toolCallId

/-- What a section does to the books and the log, and what it leaves to its thread. -/
inductive Bookkeeping (cfg : Config) (r : Reading) (w : World) :
    Act → World × Option (List Act) → Prop
  | quiet {a : Act} {w' : World} {new : List Act} {events : List Event} (ha : a.isQuiet = true)
      (hbooks : w'.supervisor.ackAndPending = w.supervisor.ackAndPending)
      (hlog : w'.supervisor.log = w.supervisor.log ++ events)
      (hevents : ∀ e ∈ events, e.isDeferral = false ∧ ∀ id, e.isSignal id = false) :
      Bookkeeping cfg r w a (w', some new)
  | nameless {t : BackgroundTask} (hcall : t.toolCallId = "") :
      Bookkeeping cfg r w (.notifyFailure t) (w, some [])
  | panic {t : BackgroundTask} (htext : ¬ Readable cfg.lower (t.error.getD "")) :
      Bookkeeping cfg r w (.notifyFailure t) (w, none)
  | repeated {t : BackgroundTask} (hemitted : t.id ∈ w.supervisor.ackAndPending.emittedTaskIds) :
      Bookkeeping cfg r w (.notifyFailure t) (w, some [])
  | emit {t : BackgroundTask} {alternatives : List String} (hcall : t.toolCallId ≠ "")
      (hacked : w.isAcked t.toolCallId = true) :
      Bookkeeping cfg r w (.notifyFailure t) (w.emit (failureSignal t alternatives),
        some [.invokeFailureCallback (failureSignal t alternatives)])
  | defer {t : BackgroundTask} {alternatives : List String} (hcall : t.toolCallId ≠ "")
      (hacked : w.isAcked t.toolCallId = false) :
      Bookkeeping cfg r w (.notifyFailure t) (w.defer t alternatives, some [])
  | duplicate {signal : SpawnOnlyFailureSignal}
      (hemitted : signal.taskId ∈ w.supervisor.ackAndPending.emittedTaskIds) :
      Bookkeeping cfg r w (.dispatchFailureSignal signal) (w, some [])
  | dispatch {signal : SpawnOnlyFailureSignal} :
      Bookkeeping cfg r w (.dispatchFailureSignal signal)
        (w.emit signal, some [.invokeFailureCallback signal])
  | invoke {signal : SpawnOnlyFailureSignal} :
      Bookkeeping cfg r w (.invokeFailureCallback signal) (w.report (.signalled signal), some [])
  | unnamed : Bookkeeping cfg r w (.markSynthAckEmitted "") (w, some [])
  | acknowledge {toolCallId : String} (hcall : toolCallId ≠ "") :
      Bookkeeping cfg r w (.markSynthAckEmitted toolCallId)
        (w.setBooks (w.supervisor.ackAndPending.acknowledge toolCallId).2,
          some ((r.walkPending (w.supervisor.ackAndPending.acknowledge toolCallId).1).map
            fun entry =>
            .dispatchFailureSignal entry.2.signal))
  | drain {id : TaskId} : Bookkeeping cfg r w (.drainPendingFailure id)
      (w.setBooks (w.supervisor.ackAndPending.removePending id), some [])

section

variable {cfg : Config} {r : Reading} {w : World}

theorem emitSignal_cases (w : World) (signal : SpawnOnlyFailureSignal) :
    (signal.taskId ∈ w.supervisor.ackAndPending.emittedTaskIds ∧ emitSignal w signal = (w, [])) ∨
    emitSignal w signal = (w.emit signal, [.invokeFailureCallback signal]) := by
  rw [emitSignal, markEmitted_fst]
  by_cases hemitted : w.supervisor.ackAndPending.emittedTaskIds.contains signal.taskId = true
  · refine .inl ⟨contains_iff_mem.mp hemitted, ?_⟩
    rw [hemitted]
    rfl
  · right
    rw [Bool.not_eq_true] at hemitted
    rw [hemitted]
    rfl

theorem bookkeeping_notifyFailure (cfg : Config) (r : Reading) (w : World) (t : BackgroundTask) :
    Bookkeeping cfg r w (.notifyFailure t) (notifyFailure cfg w t) := by
  rw [notifyFailure]
  split_ifs with hcall
  · exact .nameless hcall
  · cases hparse : parseAlternatives cfg.lower (t.error.getD "") with
    | none =>
      refine .panic fun htext => ?_
      obtain ⟨alternatives, hsome⟩ := isSome_parseAlternatives.mpr htext
      rw [hparse] at hsome
      cases hsome
    | some alternatives =>
      dsimp only [signalOrDefer]
      split_ifs with hemitted hacked
      · exact .repeated (contains_iff_mem.mp hemitted)
      · rcases emitSignal_cases w (failureSignal t alternatives) with ⟨hrepeated, hout⟩ | hout
        · rw [hout]
          exact .repeated hrepeated
        · rw [hout]
          exact .emit hcall hacked
      · exact .defer hcall (Bool.not_eq_true _ ▸ hacked)

theorem bookkeeping_quiet {a : Act} {w' : World} {new : List Act} (events : List Event)
    (ha : a.isQuiet = true) (hbooks : w'.supervisor.ackAndPending = w.supervisor.ackAndPending)
    (hlog : w'.supervisor.log = w.supervisor.log ++ events)
    (hevents : events.all fun e => match e with
      | .registered _ => true
      | .refused _ => true
      | _ => false) : Bookkeeping cfg r w a (w', some new) := by
  refine .quiet ha hbooks hlog fun e he => ?_
  have hkind := all_eq_true.mp hevents e he
  cases e <;> first | exact ⟨rfl, fun _ => rfl⟩ | cases hkind

theorem bookkeeping_registerInsert (cfg : Config) (r : Reading) (w : World) (req : Registration) :
    Bookkeeping cfg r w (.registerInsert req) (perform cfg r w (.registerInsert req)) := by
  rw [perform]
  rcases registerInsert_cases w r req with ⟨error, hsame⟩ | henter
  · rw [hsame]
    exact bookkeeping_quiet [] rfl rfl (append_nil _).symm rfl
  · rw [henter]
    have hbefore : (bif req.requirePersistence then
        w.persistSnapshot r (newTask w.process.nextId w.process.clock req) else w).supervisor =
        w.supervisor := by
      cases req.requirePersistence with
      | false => rfl
      | true =>
        rw [cond_true, persistSnapshot]
        split_ifs
        · rfl
        · rfl
    have hbooks := congrArg Supervisor.ackAndPending hbefore
    refine bookkeeping_quiet [.registered w.process.nextId] rfl hbooks ?_ rfl
    exact congrArg (fun supervisor => supervisor.log ++ [Event.registered w.process.nextId]) hbefore

/-- **What a section does to the books and the log.** -/
theorem bookkeeping_perform (cfg : Config) (r : Reading) (w : World) (a : Act) :
    Bookkeeping cfg r w a (perform cfg r w a) := by
  have hquiet : ∀ {w' : World} {new : List Act}, a.isQuiet = true →
      w'.supervisor.ackAndPending = w.supervisor.ackAndPending →
      w'.supervisor.log = w.supervisor.log → Bookkeeping cfg r w a (w', some new) :=
    fun ha hbooks hlog =>
      bookkeeping_quiet [] ha hbooks (hlog.trans (append_nil _).symm) rfl
  -- Most sections are quiet; the others have a form of their own.
  cases a with
  | mark id m =>
    rw [perform]
    rcases markSection_cases w id m with ⟨hsame, -⟩ | ⟨t, t', -, -, hmark⟩
    · rw [hsame]
      exact hquiet rfl rfl rfl
    · rw [hmark]
      exact hquiet rfl rfl rfl
  | persist =>
    rw [perform, persistSnapshot]
    split_ifs <;> exact hquiet rfl rfl rfl
  | notifyFailure t => exact bookkeeping_notifyFailure cfg r w t
  | dispatchFailureSignal signal =>
    rw [perform]
    rcases emitSignal_cases w signal with ⟨hemitted, hout⟩ | hout
    · rw [hout]
      exact .duplicate hemitted
    · rw [hout]
      exact .dispatch
  | invokeFailureCallback => exact .invoke
  | markSynthAckEmitted toolCallId =>
    rw [perform, markSynthAckEmitted]
    by_cases hcall : toolCallId = ""
    · subst hcall
      exact .unnamed
    · rw [if_neg hcall]
      exact .acknowledge hcall
  | drainPendingFailure => exact .drain
  | registerInsert req => exact bookkeeping_registerInsert cfg r w req
  | registerRefuse => exact bookkeeping_quiet [.refused _] rfl rfl rfl rfl
  | refuse error => exact bookkeeping_quiet [.refused error] rfl rfl rfl rfl
  | _ => exact hquiet rfl rfl rfl

end

/-! ## One section -/

section

variable {cfg : Config} {r : Reading} {w : World} {a b : Act} {out : World × Option (List Act)}
  {id : TaskId}

theorem claims_eq_zero_of_isQuiet (ha : a.isQuiet = true) : a.claims id = 0 ∧ a.invokes id = 0 := by
  cases a <;> first | exact ⟨rfl, rfl⟩ | cases ha

theorem signalCount_of_bookkeeping (h : Bookkeeping cfg r w a out) (id : TaskId) :
    out.1.signalCount id = w.signalCount id + a.invokes id := by
  have hreport : ∀ (v : World) (e : Event), e.isSignal id = false →
      (v.report e).signalCount id = v.signalCount id := fun v e he => by
    rw [signalCount, report, countP_append, countP_singleton, he]
    rfl
  cases h with
  | @quiet _ w' new events ha hbooks hlog hevents =>
    have hnone : events.countP (Event.isSignal id) = 0 :=
      countP_eq_zero.mpr fun e he => by rw [(hevents e he).2 id]; exact Bool.false_ne_true
    rw [(claims_eq_zero_of_isQuiet ha).2, signalCount, hlog, countP_append, hnone]
    rfl
  | emit | defer | dispatch => exact hreport _ _ rfl
  | @invoke signal =>
    rw [signalCount, report, countP_append, countP_singleton, invokes, Event.isSignal]
    simp only [decide_eq_true_eq]
    rfl
  | _ => rfl

theorem deferralCount_defer (w : World) (t : BackgroundTask) (alternatives : List String) :
    (w.defer t alternatives).deferralCount = w.deferralCount + 1 := by
  rw [defer, deferralCount, report, countP_append, countP_singleton]
  rfl

section

variable (h : Bookkeeping cfg r w a out)
include h

theorem deferralCount_le_of_bookkeeping : w.deferralCount ≤ out.1.deferralCount := by
  have hreport : ∀ (v : World) (e : Event), v.deferralCount ≤ (v.report e).deferralCount := by
    intro v e
    rw [deferralCount, deferralCount, report, countP_append]
    exact Nat.le_add_right ..
  cases h with
  | quiet ha hbooks hlog =>
    rw [deferralCount, deferralCount, hlog, countP_append]
    exact Nat.le_add_right ..
  | emit | defer | dispatch => exact hreport (w.setBooks _) _
  | invoke => exact hreport w _
  | _ => exact le_rfl

theorem pending_le_of_bookkeeping (hbound : out.1.deferralCount ≤ maxPendingFailures)
    (hpending : w.supervisor.ackAndPending.pending.length ≤ w.deferralCount) :
    out.1.supervisor.ackAndPending.pending.length ≤ out.1.deferralCount := by
  have hle := hpending.trans (deferralCount_le_of_bookkeeping h)
  cases h with
  | quiet ha hbooks => exact (congrArg (·.pending.length) hbooks).le.trans hle
  | emit | dispatch =>
    exact (congrArg List.length (markEmitted_books ..).2).le.trans hle
  | @defer t alternatives hcall hacked =>
    have hmore : (w.defer t alternatives).deferralCount = w.deferralCount + 1 :=
      deferralCount_defer ..
    rw [hmore] at hbound ⊢
    exact (length_insertPending_le (by omega)).trans (Nat.succ_le_succ hpending)
  | acknowledge => exact (length_filter_le ..).trans hle
  | @drain id => exact (removePending_sublist _ id).length_le.trans hle
  | _ => exact hle

theorem isAcked_of_bookkeeping (toolCallId : String) :
    out.1.isAcked toolCallId = true ↔
      w.isAcked toolCallId = true ∨ (a = .markSynthAckEmitted toolCallId ∧ toolCallId ≠ "") := by
  have hsame : ∀ {v : World}, v.supervisor.ackAndPending.synthAckEmittedToolCallIds =
      w.supervisor.ackAndPending.synthAckEmittedToolCallIds →
      (∀ c, a = .markSynthAckEmitted c → c = "") →
      (v.isAcked toolCallId = true ↔
        w.isAcked toolCallId = true ∨ (a = .markSynthAckEmitted toolCallId ∧ toolCallId ≠ "")) := by
    intro v hv ha
    rw [isAcked, hv]
    refine ⟨.inl, fun hacked => hacked.resolve_right fun hmark => hmark.2 (ha _ hmark.1)⟩
  -- Only an acknowledgement with a name changes the set.
  cases h with
  | quiet ha hbooks =>
    refine hsame (congrArg _ hbooks) fun c hc => ?_
    rw [hc] at ha
    cases ha
  | emit | dispatch => exact hsame (markEmitted_books ..).1 nofun
  | defer => exact hsame (insertPending_books ..).1 nofun
  | @acknowledge call hcall =>
    have hmem :
        (w.setBooks (w.supervisor.ackAndPending.acknowledge call).2).isAcked toolCallId = true ↔
        toolCallId = call ∨ w.isAcked toolCallId = true := by
      simp only [isAcked, contains_iff_mem]
      change toolCallId ∈ call :: w.supervisor.ackAndPending.synthAckEmittedToolCallIds.filter
        (· ≠ call) ↔ _
      by_cases heq : toolCallId = call <;> simp [heq]
    rw [hmem, or_comm]
    refine or_congr_right ⟨fun heq => ?_, fun heq => ?_⟩
    · subst heq
      exact ⟨rfl, hcall⟩
    · exact (markSynthAckEmitted.inj heq.1).symm
  | unnamed =>
    refine hsame rfl fun c hc => ?_
    exact (markSynthAckEmitted.inj hc).symm
  | drain => exact hsame (removePending_books ..).1 nofun
  | _ => exact hsame rfl nofun

/-- What is pending was pending before and is not acknowledged by the section, or is put off by
it. -/
theorem mem_pending_of_bookkeeping
    (hroom : out.1.deferralCount ≤ w.deferralCount ∨
      w.supervisor.ackAndPending.pending.length < maxPendingFailures)
    {entry : TaskId × PendingFailure} (hentry : entry ∈ out.1.supervisor.ackAndPending.pending) :
    (entry ∈ w.supervisor.ackAndPending.pending ∧
      ¬ (a = .markSynthAckEmitted entry.2.toolCallId ∧ entry.2.toolCallId ≠ "")) ∨
    ∃ t alternatives, a = .notifyFailure t ∧
      entry = (t.id, ⟨t.toolCallId, failureSignal t alternatives⟩) ∧
        w.isAcked t.toolCallId = false := by
  cases h with
  | quiet ha hbooks =>
    refine .inl ⟨hbooks ▸ hentry, fun hc => ?_⟩
    rw [hc.1] at ha
    cases ha
  | emit | dispatch =>
    refine .inl ⟨(markEmitted_books ..).2 ▸ hentry, fun hc => ?_⟩
    cases hc.1
  | @defer t alternatives hcall hacked =>
    have hmore : ¬ (w.defer t alternatives).deferralCount ≤ w.deferralCount := by
      rw [deferralCount_defer]
      exact Nat.not_succ_le_self _
    rcases mem_insertPending (hroom.resolve_left hmore) hentry with hold | rfl
    · refine .inl ⟨hold, fun hc => ?_⟩
      cases hc.1
    · exact .inr ⟨t, alternatives, rfl, rfl, hacked⟩
  | @acknowledge call hcall =>
    obtain ⟨hold, hother⟩ := mem_filter.mp hentry
    refine .inl ⟨hold, fun hc => ?_⟩
    exact of_decide_eq_true hother (markSynthAckEmitted.inj hc.1).symm
  | unnamed =>
    refine .inl ⟨hentry, fun hc => ?_⟩
    exact hc.2 (markSynthAckEmitted.inj hc.1).symm
  | drain =>
    refine .inl ⟨(removePending_sublist ..).subset hentry, fun hc => ?_⟩
    cases hc.1
  | _ =>
    refine .inl ⟨hentry, fun hc => ?_⟩
    cases hc.1

theorem emitted_of_bookkeeping (hid : id ∈ out.1.supervisor.ackAndPending.emittedTaskIds) :
    id ∈ w.supervisor.ackAndPending.emittedTaskIds ∨ ∃ b ∈ out.2.getD [], b.invokes id = 1 := by
  cases h with
  | quiet ha hbooks => exact .inl (hbooks ▸ hid)
  | @emit t alternatives hcall hacked | dispatch =>
    refine (mem_markEmitted _ hid).imp_right fun hid => ?_
    exact ⟨_, mem_singleton.mpr rfl, if_pos hid.symm⟩
  | defer => exact .inl ((insertPending_books ..).2 ▸ hid)
  | drain => exact .inl ((removePending_books ..).2 ▸ hid)
  | _ => exact .inl hid

end

theorem sum_claims_dispatch (id : TaskId) {entries : List (TaskId × PendingFailure)}
    (h : ∀ entry ∈ entries, entry.2.signal.taskId = entry.1) :
    ((entries.map fun entry => dispatchFailureSignal entry.2.signal).map (claims id)).sum =
      entries.countP (·.1 == id) := by
  induction entries with
  | nil => rfl
  | cons _ _ ih =>
    obtain ⟨hentry, hentries⟩ := forall_mem_cons.mp h
    rw [map_cons, map_cons, sum_cons, ih hentries, countP_cons, claims, hentry, Nat.add_comm]
    simp

theorem sum_invokes_dispatch (entries : List (TaskId × PendingFailure)) :
    ((entries.map fun entry => dispatchFailureSignal entry.2.signal).map (invokes id)).sum = 0 := by
  refine List.sum_eq_zero fun n hn => ?_
  simp only [map_map, mem_map, Function.comp_apply] at hn
  obtain ⟨entry, -, rfl⟩ := hn
  rfl

/-- **The signal of a task changes hands**: a section that keeps the books passes on what it had in
hand, to its thread or to the book of the pending failures. -/
theorem balance_of_bookkeeping (h : Bookkeeping cfg r w a out) (ha : a.isQuiet = false)
    (htext : ∀ t, a = .notifyFailure t → Readable cfg.lower (t.error.getD ""))
    (hdrain : a ≠ .drainPendingFailure id)
    (hids : ∀ entry ∈ w.supervisor.ackAndPending.pending, entry.2.signal.taskId = entry.1)
    (hclaim : a.claims id ≠ 0 → id ∉ w.supervisor.ackAndPending.emittedTaskIds ∧
      w.pendingCount id = 0)
    (hroom : out.1.deferralCount ≤ w.deferralCount ∨
      w.supervisor.ackAndPending.pending.length < maxPendingFailures) :
    ∃ new, out.2 = some new ∧
      (new.map (Act.claims id)).sum + (new.map (Act.invokes id)).sum + out.1.pendingCount id =
        a.claims id + w.pendingCount id := by
  cases h with
  | quiet hquiet =>
    rw [hquiet] at ha
    cases ha
  | nameless hcall =>
    refine ⟨[], rfl, ?_⟩
    rw [Act.claims, if_neg fun h => h.2 hcall]
    rfl
  | panic hpanic => exact absurd (htext _ rfl) hpanic
  | @repeated t hemitted =>
    have hother : (Act.notifyFailure t).claims id = 0 := by
      by_contra hne
      refine hne (if_neg fun hid => (hclaim hne).1 ?_)
      rw [← hid.1]
      exact hemitted
    exact ⟨[], rfl, by rw [hother]; rfl⟩
  | @emit t alternatives hcall hacked =>
    refine ⟨_, rfl, ?_⟩
    have hpending : (w.emit (failureSignal t alternatives)).pendingCount id = w.pendingCount id :=
      congrArg (List.countP _) (markEmitted_books ..).2
    rw [hpending, map_singleton, map_singleton, sum_singleton, sum_singleton]
    simp only [Act.claims, Act.invokes, hcall, ne_eq, not_false_eq_true, and_true, Nat.zero_add]
    rfl
  | @defer t alternatives hcall hacked =>
    refine ⟨[], rfl, ?_⟩
    have hmore : ¬ (w.defer t alternatives).deferralCount ≤ w.deferralCount := by
      rw [deferralCount_defer]
      exact Nat.not_succ_le_self _
    have hclaims : (Act.notifyFailure t).claims id = if id = t.id then 1 else 0 := by
      simp [Act.claims, hcall, @eq_comm _ t.id id]
    have hpending : (w.defer t alternatives).pendingCount id =
        w.pendingCount id + if id = t.id then 1 else 0 := by
      refine countP_insertPending (hroom.resolve_left hmore) fun hid => ?_
      exact (hclaim (by rw [hclaims, if_pos hid]; exact Nat.one_ne_zero)).2
    rw [hpending, hclaims, map_nil, map_nil, sum_nil]
    omega
  | @duplicate signal hemitted =>
    have hother : (Act.dispatchFailureSignal signal).claims id = 0 := by
      by_contra hne
      refine hne (if_neg fun hid => (hclaim hne).1 ?_)
      rw [← hid]
      exact hemitted
    exact ⟨[], rfl, by rw [hother]; rfl⟩
  | @dispatch signal =>
    refine ⟨_, rfl, ?_⟩
    have hpending : (w.emit signal).pendingCount id = w.pendingCount id :=
      congrArg (List.countP _) (markEmitted_books ..).2
    rw [hpending, map_singleton, map_singleton, sum_singleton, sum_singleton]
    simp [Act.claims, Act.invokes]
  | invoke | unnamed => exact ⟨[], rfl, rfl⟩
  | @acknowledge call hcall =>
    refine ⟨_, rfl, ?_⟩
    -- the order in which the drained failures are walked does not matter
    have hperm := r.walkPending_perm (w.supervisor.ackAndPending.acknowledge call).1
    have hsum := sum_claims_dispatch id fun entry hentry =>
      hids entry (mem_of_mem_filter (hperm.mem_iff.mp hentry))
    have hdrained := countP_drainPendingForToolCall
      { w.supervisor.ackAndPending with
        synthAckEmittedToolCallIds :=
          call :: w.supervisor.ackAndPending.synthAckEmittedToolCallIds.filter (· ≠ call) } call id
    rw [hsum, hperm.countP_eq, sum_invokes_dispatch]
    simpa [Act.claims, pendingCount, setBooks, acknowledge] using hdrained
  | @drain other =>
    refine ⟨[], rfl, ?_⟩
    have hne : id ≠ other := fun h => hdrain (h ▸ rfl)
    have hpending : (w.setBooks (w.supervisor.ackAndPending.removePending other)).pendingCount id =
        w.pendingCount id := countP_removePending _ hne
    rw [hpending]
    rfl

end

end Octos.Tasks
