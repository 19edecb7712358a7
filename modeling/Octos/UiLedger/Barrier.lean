import Octos.UiLedger.Projection

/-!
# The projection barrier

The numbers of a thread's envelopes in the log increase, and nothing of the thread follows its
terminal envelope. What is in memory may be dropped at any time and what is in the logs may be
trimmed, so neither carries this alone: the watermark covers every envelope that reached the log,
because it is written first, and merging it with envelopes that are in the log keeps it so.

Numbers are `u64` and their increment saturates, so the numbers run out after 2^64 - 1 emits.

## Main results

* `projection_barrier`: nothing follows a terminal envelope, and numbers increase
* `emitted_seqs_repeat`: when they are used up, the last number is given again
-/

namespace Octos.UiLedger

open List Nat Projection ThreadSeqState

variable {α : Type} {cfg : LedgerConfig} {stream thread : String}

/-! ## Covering the log -/

/-- After `k` emits: the state's next number is past the envelopes logged, as far as numbers go, and
the state is completed when one of them is terminal. -/
structure Covers (k : ℕ) (logged : List (EnvelopeV2 α)) (state : ThreadSeqState) : Prop where
  bound : state.nextSeq ≤ k + 1
  above : k < u64Max → ∀ e ∈ logged, e.seq < state.nextSeq
  completed : ∀ e ∈ logged, e.payload.isTerminal = true → state.completed = true

section

variable {k : ℕ} {logged : List (EnvelopeV2 α)} {state : ThreadSeqState}

theorem covers_nil (k : ℕ) : Covers k ([] : List (EnvelopeV2 α)) default :=
  ⟨zero_le _, by simp, by simp⟩

theorem Covers.succ (h : Covers k logged state) : Covers (k + 1) logged state :=
  ⟨le_succ_of_le h.bound, fun hk => h.above (lt_of_succ_lt hk), h.completed⟩

variable {state' : ThreadSeqState}

theorem Covers.congr (h : Covers k logged state)
    (hnext : state'.nextSeq = state.nextSeq) (hcompleted : state'.completed = state.completed) :
    Covers k logged state' :=
  ⟨hnext ▸ h.bound, hnext ▸ h.above, hcompleted ▸ h.completed⟩

theorem saturatingAddU64_le (a b : ℕ) : saturatingAddU64 a b ≤ a + b := min_le_left ..

variable {e : EnvelopeV2 α}

theorem Covers.merge (h : Covers k logged state) (he : e.seq ≤ k) :
    Covers k logged (state.merge e) where
  bound := max_le h.bound ((saturatingAddU64_le ..).trans (Nat.add_le_add_right he 1))
  above := fun hk e' he' => lt_max_of_lt_left (h.above hk e' he')
  completed := fun e' he' ht => by rw [ThreadSeqState.merge, h.completed e' he' ht]; rfl

theorem updateNativeAssistantOwner_eq_some {identity : String}
    (h : updateNativeAssistantOwner thread state identity = some state') :
    state' = { state with assistantSegmentId := some identity } := by
  rw [updateNativeAssistantOwner] at h
  dsimp only at h
  split_ifs at h
  exact (Option.some.inj h).symm

variable (h : Covers k logged state)
include h

theorem Covers.reconcileSource (anchor : Option ℕ)
    (baseline : Option String) (source : ℕ × String) :
    Covers k logged (UiLedger.reconcileSource thread anchor baseline state source) := by
  rw [UiLedger.reconcileSource]
  split
  · split
    · exact h
    next hupdate =>
      obtain rfl := updateNativeAssistantOwner_eq_some hupdate
      exact h.congr rfl rfl
  · exact h

theorem Covers.reconcile {found : List (EnvelopeV2 α)} (hfound : ∀ e ∈ found, e.seq ≤ k) :
    Covers k logged (reconcileDurableAssistantOwner thread found state) := by
  have hmerged := foldlRecOn found _ h fun _ h e he => h.merge (hfound e he)
  exact foldlRecOn _ _ hmerged fun _ h source _ => h.reconcileSource _ _ source

theorem Covers.seq_le : state.seq ≤ k + 1 := by
  have := h.bound
  rw [seq]
  split_ifs <;> omega

theorem Covers.lt_seq (hk : k < u64Max) (he : e ∈ logged) : e.seq < state.seq := by
  have := h.above hk e he
  rw [seq]
  split_ifs <;> omega

theorem Covers.nextSeq_advance (hk : k + 1 < u64Max) (isTerminal : Bool) :
    (state.advance isTerminal).nextSeq = state.seq + 1 :=
  min_eq_left ((Nat.add_le_add_right h.seq_le 1).trans hk)

theorem Covers.advance_unused (isTerminal : Bool) :
    Covers (k + 1) logged (state.advance isTerminal) where
  bound := (saturatingAddU64_le ..).trans (Nat.add_le_add_right h.seq_le 1)
  above := by
    intro hk e he
    rw [h.nextSeq_advance hk]
    exact lt_succ_of_lt (h.lt_seq (lt_of_succ_lt hk) he)
  completed := fun e he ht => by simp [ThreadSeqState.advance, h.completed e he ht]

theorem Covers.advance (hseq : e.seq = state.seq) :
    Covers (k + 1) (logged ++ [e]) (state.advance e.payload.isTerminal) := by
  have hold := h.advance_unused e.payload.isTerminal
  refine ⟨hold.bound, fun hk e' he' => ?_, fun e' he' ht => ?_⟩
  · rcases mem_append.mp he' with he' | he'
    · exact hold.above hk e' he'
    · rw [mem_singleton.mp he', hseq, h.nextSeq_advance hk]
      exact lt_succ_self _
  · rcases mem_append.mp he' with he' | he'
    · exact hold.completed e' he' ht
    · rw [mem_singleton.mp he'] at ht
      simp [ThreadSeqState.advance, ht]

end

/-! ## What else is appended -/

/-- The event is no envelope of the thread. -/
def NotOf (thread : String) (event : UiProtocolLedgerEvent (EventBody α)) : Prop :=
  threadEnvelope thread event = none

/-- Only emits append envelopes of the thread. -/
def ProjectionOp.Foreign (thread : String) : ProjectionOp α → Prop
  | .emit touch _ => touch.Meets (NotOf thread)
  | .crashedEmit touch _ => touch.Meets (NotOf thread)
  | .ledger op => op.Appends (NotOf thread)

def ProjectionOp.isEmit : ProjectionOp α → Bool
  | .emit _ _ => true
  | .crashedEmit _ _ => true
  | .ledger _ => false

/-- Envelopes of the thread kept in memory or on disk are among those that reached the log. -/
def Logged (thread : String) (logged : List (EnvelopeV2 α))
    (event : UiProtocolLedgerEvent (EventBody α)) : Prop :=
  ∀ e ∈ threadEnvelope thread event, e ∈ logged

theorem NotOf.logged {event : UiProtocolLedgerEvent (EventBody α)} (h : NotOf thread event)
    (logged : List (EnvelopeV2 α)) : Logged thread logged event := by
  intro e he
  rw [Option.mem_def, h] at he
  cases he

theorem Extends.loggedEnvelopes_eq {p : UiProtocolLedgerEvent (EventBody α) → Prop}
    {L L' : Ledger (EventBody α)} (h : Extends p (NotOf thread) L L') :
    loggedEnvelopes thread L' = loggedEnvelopes thread L := by
  obtain ⟨events, hpub, hevents⟩ := h.grows
  rw [loggedEnvelopes, loggedEnvelopes, hpub, filterMap_append,
    filterMap_eq_nil_iff.mpr hevents, append_nil]

/-! ## The invariant -/

/-- After `k` emits: numbers increase while they last, nothing follows a terminal envelope, and the
watermark and the state in memory both cover the log. -/
structure Kept (k : ℕ) (thread : String) (P : Projection α) : Prop where
  increasing : k ≤ u64Max → (loggedEnvelopes thread P.ledger).Pairwise (·.seq < ·.seq)
  final : (loggedEnvelopes thread P.ledger).Pairwise fun e _ => e.payload.isTerminal = false
  seqs : ∀ e ∈ loggedEnvelopes thread P.ledger, e.seq ≤ k
  held : P.ledger.Holds (Logged thread (loggedEnvelopes thread P.ledger))
  watermark : Covers k (loggedEnvelopes thread P.ledger) (P.watermark.getD ThreadSeqState.default)
  memory : ∀ state ∈ P.threadSeq, Covers k (loggedEnvelopes thread P.ledger) state

theorem kept_start (thread : String) : Kept 0 thread (start : Projection α) where
  increasing := fun _ => List.Pairwise.nil
  final := List.Pairwise.nil
  seqs := by simp [loggedEnvelopes, start, Ledger.start]
  held := ⟨nofun, nofun⟩
  watermark := covers_nil 0
  memory := nofun

section

variable {k : ℕ} {P : Projection α}

theorem Kept.succ (h : Kept k thread P) : Kept (k + 1) thread P where
  increasing := fun hk => h.increasing (le_of_succ_le hk)
  final := h.final
  seqs := fun e he => le_succ_of_le (h.seqs e he)
  held := h.held
  watermark := h.watermark.succ
  memory := fun state hstate => (h.memory state hstate).succ

theorem Kept.withLedger (h : Kept k thread P) {L : Ledger (EventBody α)}
    (hext : Extends (Logged thread (loggedEnvelopes thread P.ledger)) (NotOf thread) P.ledger L) :
    Kept k thread { P with ledger := L } := by
  have heq := hext.loggedEnvelopes_eq
  obtain ⟨hincreasing, hfinal, hseqs, hheld, hwatermark, hmemory⟩ := h
  rw [← heq] at hincreasing hfinal hseqs hwatermark hmemory
  refine ⟨hincreasing, hfinal, hseqs, ?_, hwatermark, hmemory⟩
  rw [heq]
  exact hext.holds hheld

theorem extends_ensureDirectory {p q : UiProtocolLedgerEvent (EventBody α) → Prop}
    (L : Ledger (EventBody α)) : Extends p q L L.ensureDirectory :=
  .of_holds (fun h => ⟨by rintro _ ⟨⟩; exact h.directory, h.ring⟩) rfl

section

variable (h : Kept k thread P)
include h

theorem Kept.withThreadSeq (threadSeq : Option ThreadSeqState) (failed : Option String)
    (hcovers : ∀ state ∈ threadSeq, Covers k (loggedEnvelopes thread P.ledger) state) :
    Kept k thread { P with threadSeq := threadSeq, failedProjection := failed } :=
  ⟨h.increasing, h.final, h.seqs, h.held, h.watermark, hcovers⟩

theorem Kept.withWatermark {state : ThreadSeqState}
    (hcovers : Covers k (loggedEnvelopes thread P.ledger) state) :
    Kept k thread (P.persist state) := by
  have hdir := h.withLedger (extends_ensureDirectory P.ledger)
  exact ⟨hdir.increasing, hdir.final, hdir.seqs, hdir.held, hcovers, hdir.memory⟩

theorem Kept.restart : Kept k thread P.restart :=
  have hrecovered :
      Extends (Logged thread (loggedEnvelopes thread P.ledger)) (NotOf thread) P.ledger
      (recover P.ledger) := .of_holds (fun h => ⟨h.dir, nofun⟩) rfl
  (h.withLedger hrecovered).withThreadSeq none none nofun

theorem Kept.recover :
    Covers k (loggedEnvelopes thread P.ledger) (recoverThreadSeqState cfg stream thread P) := by
  rw [recoverThreadSeqState]
  split
  · exact h.watermark
  next snapshot hread =>
    refine h.watermark.reconcile fun e he => h.seqs e ?_
    obtain ⟨entry, hentry, he⟩ := mem_filterMap.mp he
    exact (h.held.read hread).replay entry hentry e he

/-! ## Steps -/

/-- The append of an emit is ready: the state that numbered its envelope was open and covered the
log, and the watermark and memory have advanced past it. -/
def Ready (k : ℕ) (thread : String) (isTerminal : Bool) (seq : ℕ) (P : Projection α) : Prop :=
  ∃ state, Covers k (loggedEnvelopes thread P.ledger) state ∧ state.completed = false ∧
    seq = state.seq ∧ P.threadSeq = some (state.advance isTerminal) ∧
    P.watermark = some (state.advance isTerminal)

variable {P' : Projection α}

theorem Kept.allocate {isTerminal : Bool} {write : WatermarkWrite}
    {result : Except ProjectionSeqAllocationError ℕ}
    (heq : allocateProjectionSeq cfg stream thread isTerminal write P = (result, P')) :
    Kept (k + 1) thread P' ∧
      loggedEnvelopes thread P'.ledger = loggedEnvelopes thread P.ledger ∧
      ∀ seq, result = .ok seq → Ready k thread isTerminal seq P' := by
  rw [allocateProjectionSeq] at heq
  -- memory is covered by the invariant, what is recovered by the watermark
  have hcovers : Covers k (loggedEnvelopes thread P.ledger)
      (P.threadSeq.getD (recoverThreadSeqState cfg stream thread P)) := by
    cases hmemory : P.threadSeq with
    | none => exact h.recover
    | some state => exact h.memory state hmemory
  generalize P.threadSeq.getD (recoverThreadSeqState cfg stream thread P) = state at hcovers heq
  have hloaded := h.withThreadSeq (some state) P.failedProjection (by rintro _ ⟨⟩; exact hcovers)
  have hadvanced := fun failed => h.succ.withThreadSeq (some (state.advance isTerminal)) failed
    (by rintro _ ⟨⟩; exact hcovers.advance_unused isTerminal)
  split at heq
  · cases heq
    exact ⟨hloaded.succ, rfl, nofun⟩
  next hopen =>
    by_cases hcompleted : state.completed = true
    · rw [if_pos hcompleted] at heq
      cases heq
      exact ⟨hloaded.succ, rfl, nofun⟩
    · rw [if_neg hcompleted] at heq
      cases write with
      | failed dirCreated reason =>
        cases heq
        cases dirCreated with
        | true =>
          exact ⟨(hadvanced (some reason)).withLedger (extends_ensureDirectory _), rfl, nofun⟩
        | false => exact ⟨hadvanced (some reason), rfl, nofun⟩
      | written =>
        cases heq
        refine ⟨(hadvanced P.failedProjection).withWatermark
          (hcovers.advance_unused isTerminal), rfl, ?_⟩
        rintro _ ⟨⟩
        exact ⟨state, hcovers, Bool.eq_false_of_not_eq_true hcompleted, rfl, rfl, rfl⟩

theorem Kept.beginEmit {touch : Touch (EventBody α)} (htouch : touch.Meets (NotOf thread))
    {input : EmitInput α}
    {result : Except EmitError (Option (Option (DiskSessionSnapshot (EventBody α)) × ℕ))}
    (heq : UiLedger.beginEmit cfg stream thread touch input P = (result, P')) :
    Kept (k + 1) thread P' ∧ ∀ preload seq, result = .ok (some (preload, seq)) →
      Ready k thread input.payload.isTerminal seq P' ∧
      ∀ snapshot ∈ preload,
        snapshot.toDiskScan.Holds (Logged thread (loggedEnvelopes thread P'.ledger)) := by
  obtain ⟨hext, hpreload⟩ := extends_snapshotIfSessionAbsent cfg stream P.ledger
    (fun ev (hev : NotOf thread ev) => hev.logged (loggedEnvelopes thread P.ledger)) htouch
  rw [UiLedger.beginEmit] at heq
  cases habsent : snapshotIfSessionAbsent cfg stream touch P.ledger with
  | mk absent L =>
    rw [habsent] at hext hpreload heq
    have hloaded := h.withLedger hext
    cases absent with
    | error =>
      cases heq
      exact ⟨hloaded.succ, nofun⟩
    | ok =>
      dsimp only at heq
      -- A refused number ends the emit, so that only the last case has something to append.
      cases hallocate : allocateProjectionSeq cfg stream thread input.payload.isTerminal
          input.watermark { P with ledger := L } with
      | mk allocated P'' =>
        obtain ⟨hkept, hlogged, hready⟩ := hloaded.allocate hallocate
        rw [hallocate] at heq
        rcases allocated with (_ | _) | seq
        · cases heq
          exact ⟨hkept, nofun⟩
        · cases heq
          exact ⟨hkept, nofun⟩
        · cases heq
          refine ⟨hkept, ?_⟩
          rintro _ _ ⟨⟩
          refine ⟨hready seq rfl, ?_⟩
          rw [hlogged.trans hext.loggedEnvelopes_eq]
          exact hpreload _ rfl (hext.holds h.held)

end

variable (input : EmitInput α)

theorem threadEnvelope_append (seq : ℕ) (cursor : UiCursor) :
    threadEnvelope thread ((input.append thread seq).event.withCursor cursor) =
      some (input.envelope thread seq) := by
  simp [threadEnvelope, EmitInput.append, UiProtocolLedgerEvent.withCursor, envelopeIn,
    EmitInput.envelope]

theorem loggedEnvelopes_append (seq : ℕ) (session : SessionLedger (EventBody α))
    (L : Ledger (EventBody α)) :
    loggedEnvelopes thread (appendTo cfg stream session (input.append thread seq) L) =
      loggedEnvelopes thread L ++ [input.envelope thread seq] := by
  simp [loggedEnvelopes, appendTo, AppendInput.ledgered, threadEnvelope_append]

/-- **The envelope is logged**: its number is past the others, and none of them is terminal. -/
theorem Kept.append (h : Kept (k + 1) thread P) {input : EmitInput α} {seq : ℕ}
    (hready : Ready k thread input.payload.isTerminal seq P) {session : SessionLedger (EventBody α)}
    (hring : ∀ e ∈ session.entries, Logged thread (loggedEnvelopes thread P.ledger) e.event) :
    Kept (k + 1) thread
      { P with ledger := appendTo cfg stream session (input.append thread seq) P.ledger } := by
  obtain ⟨state, hcovers, hopen, rfl, hmemory, hwatermark⟩ := hready
  have hmono : ∀ ev, Logged thread (loggedEnvelopes thread P.ledger) ev →
      Logged thread (loggedEnvelopes thread P.ledger ++ [input.envelope thread state.seq]) ev :=
    fun ev hev e he => mem_append_left _ (hev e he)
  have hext : Extends
      (Logged thread (loggedEnvelopes thread P.ledger ++ [input.envelope thread state.seq]))
      (Logged thread (loggedEnvelopes thread P.ledger ++ [input.envelope thread state.seq]))
      P.ledger (appendTo cfg stream session (input.append thread state.seq) P.ledger) := by
    refine extends_appendTo (fun _ => id) (fun _ e he => hmono _ (hring e he)) fun cursor e he => ?_
    rw [threadEnvelope_append, Option.mem_some_iff] at he
    exact mem_append_right _ (mem_singleton.mpr he.symm)
  have hadvance := hcovers.advance (e := input.envelope thread state.seq) rfl
  refine ⟨?_, ?_, ?_, ?_, ?_, ?_⟩ <;> dsimp only <;> rw [loggedEnvelopes_append]
  · intro hk
    refine pairwise_append.mpr ⟨h.increasing hk, pairwise_singleton .., ?_⟩
    intro e he e' he'
    rw [mem_singleton.mp he']
    exact hcovers.lt_seq hk he
  · refine pairwise_append.mpr ⟨h.final, pairwise_singleton .., ?_⟩
    intro e he _ _
    -- a terminal envelope in the log would have completed the state
    by_contra hterminal
    rw [hcovers.completed e he (Bool.eq_true_of_not_eq_false hterminal)] at hopen
    cases hopen
  · intro e he
    rcases mem_append.mp he with he | he
    · exact h.seqs e he
    · rw [mem_singleton.mp he]
      exact hcovers.seq_le
  · exact hext.holds (h.held.mono hmono)
  · rw [hwatermark]
    exact hadvance
  · rw [hmemory]
    rintro _ ⟨⟩
    exact hadvance

theorem Kept.ownSegment (h : Kept k thread P) (input : EmitInput α) (seq : ℕ) :
    Kept k thread (UiLedger.ownSegment thread input seq P) := by
  rw [UiLedger.ownSegment]
  split
  next identity state hidentity hmemory =>
    split
    · exact h
    next hupdate =>
      obtain rfl := updateNativeAssistantOwner_eq_some hupdate
      have hcovers : Covers k (loggedEnvelopes thread P.ledger)
          ⟨state.nextSeq, state.completed, some identity, some seq⟩ :=
        (h.memory state hmemory).congr rfl rfl
      have howned := h.withThreadSeq (some _) P.failedProjection (by rintro _ ⟨⟩; exact hcovers)
      split_ifs
      · exact howned.withWatermark hcovers
      · exact howned
  · exact h
  · exact h

/-- **An emit** keeps the invariant. -/
theorem Kept.emit (h : Kept k thread P) {touch : Touch (EventBody α)}
    (htouch : touch.Meets (NotOf thread)) (input : EmitInput α) :
    Kept (k + 1) thread (tryEmitEnvelopeV2 cfg stream thread touch input P).2 := by
  rw [tryEmitEnvelopeV2]
  cases hbegin : UiLedger.beginEmit cfg stream thread touch input P with
  | mk result =>
    obtain ⟨hkept, hready⟩ := h.beginEmit htouch hbegin
    rcases result with error | _ | ⟨preload, seq⟩
    · exact hkept
    · exact hkept
    · obtain ⟨hready, hpreload⟩ := hready preload seq rfl
      exact (hkept.append hready (hkept.held.appendBase hpreload)).ownSegment input seq

variable (cfg stream) in
theorem Kept.step (h : Kept k thread P) {op : ProjectionOp α} (hop : op.Foreign thread) :
    Kept (k + if op.isEmit then 1 else 0) thread (P.step cfg stream thread op) := by
  have hledger : ∀ op : Op (EventBody α), op.Appends (NotOf thread) →
      Kept k thread { P with ledger := UiLedger.step cfg stream P.ledger op } :=
    fun op hop => h.withLedger (extends_step (fun ev hev => NotOf.logged hev _) hop)
  cases op with
  | emit touch input => exact h.emit hop input
  | crashedEmit => exact (h.beginEmit hop rfl).1.restart
  | ledger op =>
    cases op with
    | evict => exact (hledger .evict hop).withThreadSeq none _ nofun
    | restart => exact h.restart
    | append touch input | replayAfterWithHead touch after
    | snapshotWithCursor => exact hledger _ hop

end

def emitCount (ops : List (ProjectionOp α)) : ℕ := ops.countP (·.isEmit)

variable (cfg stream) in
theorem Kept.run {ops : List (ProjectionOp α)} (hops : ∀ op ∈ ops, op.Foreign thread) {k : ℕ}
    {P : Projection α} (h : Kept k thread P) :
    Kept (k + emitCount ops) thread (runSteps (Projection.step cfg stream thread) P ops) := by
  induction ops generalizing k P with
  | nil => exact h
  | cons op ops ih =>
    have hstep := h.step cfg stream (hops op mem_cons_self)
    have hrest := ih (fun op' hop' => hops op' (mem_cons_of_mem _ hop')) hstep
    rw [runSteps_cons, emitCount, countP_cons, ← emitCount]
    rwa [add_assoc, add_comm _ (emitCount ops)] at hrest

/-- **The projection barrier.** In every run, whatever is evicted, restarted or stopped between the
watermark and the log, no envelope of the thread reaches the log after a terminal one of it, and the
numbers of those that do increase while numbers are left. -/
theorem projection_barrier (cfg : LedgerConfig) (stream thread : String)
    (ops : List (ProjectionOp α)) (hops : ∀ op ∈ ops, op.Foreign thread) :
    (loggedEnvelopes thread
        (runSteps (Projection.step cfg stream thread) Projection.start ops).ledger).Pairwise
        (fun e _ => e.payload.isTerminal = false) ∧
      (emitCount ops ≤ u64Max →
        (loggedEnvelopes thread
          (runSteps (Projection.step cfg stream thread) Projection.start ops).ledger).Pairwise
          (·.seq < ·.seq)) := by
  have h := (kept_start thread).run cfg stream hops
  rw [Nat.zero_add] at h
  exact ⟨h.final, h.increasing⟩

/-- An emit whose writes succeed, on a session with nothing to sweep. -/
def plainEmit (payload : PayloadV2 Unit) : ProjectionOp Unit :=
  .emit ⟨true, []⟩ ⟨payload, none, 0, false, 10, true, .written, true⟩

/-- Two envelopes with an eviction and a stopped emit between them, then the terminal one; the emit
after the restart is dropped. -/
theorem projection_barrier_stoppedEmit :
    (loggedEnvelopes "t" (runSteps (Projection.step ⟨2, 1, 2, 2⟩ "s" "t") Projection.start
        [plainEmit (.other ()), .ledger .evict,
          .crashedEmit ⟨true, []⟩ ⟨.other (), none, 0, false, 10, true, .written, true⟩,
          plainEmit (.assistantDelta "t:assistant:iteration:1" ()), plainEmit (.turnTerminal ()),
          .ledger .restart, plainEmit (.other ())]).ledger).map (·.seq) = [1, 3, 4] ∧
      (loggedEnvelopes "t" (runSteps (Projection.step ⟨2, 1, 2, 2⟩ "s" "t") Projection.start
        [plainEmit (.other ()), .ledger .evict,
          .crashedEmit ⟨true, []⟩ ⟨.other (), none, 0, false, 10, true, .written, true⟩,
          plainEmit (.assistantDelta "t:assistant:iteration:1" ()), plainEmit (.turnTerminal ()),
          .ledger .restart, plainEmit (.other ())]).ledger).Pairwise (·.seq < ·.seq) :=
  ⟨by decide +kernel,
    (projection_barrier ⟨2, 1, 2, 2⟩ "s" "t" _
      (by simp [plainEmit, ProjectionOp.Foreign, Touch.Meets, Op.Appends])).2 (by decide +kernel)⟩

/-! ## Running out of numbers -/

/-- A resident session whose thread is open and numbered `nextSeq` next. -/
structure Emitting (nextSeq : ℕ) (P : Projection Unit) : Prop where
  session : P.ledger.session.isSome
  latch : P.failedProjection = none
  memory : P.threadSeq = some ⟨nextSeq, false, none, none⟩

variable (cfg stream thread) in
theorem Emitting.emit {nextSeq : ℕ} {P : Projection Unit} (h : Emitting nextSeq P)
    (hpos : nextSeq ≠ 0) :
    Emitting (saturatingAddU64 nextSeq 1) (P.step cfg stream thread (plainEmit (.other ()))) ∧
      (loggedEnvelopes thread (P.step cfg stream thread (plainEmit (.other ()))).ledger).map
        (·.seq) =
        (loggedEnvelopes thread P.ledger).map (·.seq) ++ [nextSeq] := by
  obtain ⟨hsession, hopen, hmemory⟩ := h
  obtain ⟨session, hsession⟩ := Option.isSome_iff_exists.mp hsession
  have hstep : P.step cfg stream thread (plainEmit (.other ())) =
      { P with
        ledger := appendTo cfg stream session
          (EmitInput.append thread ⟨.other (), none, 0, false, 10, true, .written, true⟩ nextSeq)
          P.ledger.ensureDirectory
        threadSeq := some ⟨saturatingAddU64 nextSeq 1, false, none, none⟩
        watermark := some ⟨saturatingAddU64 nextSeq 1, false, none, none⟩ } := by
    simp [plainEmit, Projection.step, tryEmitEnvelopeV2, beginEmit, snapshotIfSessionAbsent,
      ensureSessionLoaded, hsession, allocateProjectionSeq, hopen, hmemory, PayloadV2.isTerminal,
      seq, advance, hpos, finishEmit, appendLocked, appendBase,
      Projection.persist, Ledger.ensureDirectory, ownSegment, PayloadV2.assistantIdentity]
  rw [hstep]
  refine ⟨⟨rfl, hopen, rfl⟩, ?_⟩
  rw [loggedEnvelopes_append, map_append]
  rfl

def plainEmits (n : ℕ) : List (ProjectionOp Unit) := List.replicate n (plainEmit (.other ()))

theorem emitting_plainEmits (n : ℕ) :
    Emitting (min (n + 2) u64Max)
        (runSteps (Projection.step ⟨2, 1, 2, 2⟩ "s" "t") Projection.start (plainEmits (n + 1))) ∧
      min (n + 1) u64Max ∈ (loggedEnvelopes "t" (runSteps (Projection.step ⟨2, 1, 2, 2⟩ "s" "t")
        start (plainEmits (n + 1))).ledger).map (·.seq) := by
  induction n with
  | zero => exact ⟨⟨by decide +kernel, by decide +kernel, by decide +kernel⟩, by decide +kernel⟩
  | succ n ih =>
    obtain ⟨hemit, -⟩ := ih
    have hpos : min (n + 2) u64Max ≠ 0 :=
      (lt_min (succ_pos _) (by decide +kernel : 0 < u64Max)).ne'
    obtain ⟨hnext, hlogged⟩ := hemit.emit ⟨2, 1, 2, 2⟩ "s" "t" hpos
    rw [plainEmits, replicate_succ', ← plainEmits, runSteps_snoc]
    refine ⟨?_, ?_⟩
    · rw [saturatingAddU64, show min (min (n + 2) u64Max + 1) u64Max =
        min (n + 1 + 2) u64Max by omega] at hnext
      exact hnext
    · rw [hlogged]
      exact mem_append_right _ (mem_singleton.mpr rfl)

/-- **The last number is given again.** After 2^64 - 1 emits the next envelope gets the number of
the last. -/
theorem emitted_seqs_repeat :
    ¬ (loggedEnvelopes "t" (runSteps (Projection.step ⟨2, 1, 2, 2⟩ "s" "t") Projection.start
      (plainEmits (u64Max + 1))).ledger).Pairwise (·.seq < ·.seq) := by
  obtain ⟨n, hn⟩ : ∃ n, u64Max = n + 1 := ⟨u64Max - 1, by decide +kernel⟩
  obtain ⟨hemit, hlast⟩ := emitting_plainEmits n
  rw [show min (n + 2) u64Max = u64Max by omega] at hemit
  rw [show min (n + 1) u64Max = u64Max by omega, ← hn] at hlast
  obtain ⟨-, hlogged⟩ := hemit.emit ⟨2, 1, 2, 2⟩ "s" "t" (by decide +kernel)
  rw [plainEmits, replicate_succ', ← plainEmits, runSteps_snoc, ← pairwise_map
    (R := (· < ·)), hn, hlogged, ← hn, pairwise_append]
  rintro ⟨-, -, hlt⟩
  exact lt_irrefl _ (hlt u64Max hlast u64Max (mem_singleton.mpr rfl))

end Octos.UiLedger
