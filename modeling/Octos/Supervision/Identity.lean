import Octos.Supervision.Consistency
import Octos.Base.Keys

/-!
# Which continuations are told apart

`record_continuation_queued` names a continuation twice: its event id, by which a replay applies a
row once, and its key in the state. Both put the ids of the group and of the continuation next to
each other with a separator that the ids may contain themselves. Two calls for different
continuations can therefore have the same event id, and the second one is dropped, or the same key,
and the second one takes the place of the first.

## Main results

* `load_carries_both_iff`: when a load after two calls has the payloads of both
-/

namespace Octos.Supervision

open SupervisorState

variable (c : ContinuationRecord)

def ContinuationRecord.pair : String × String := (c.groupId, c.continuationId)

def ContinuationRecord.key : String := continuationKey c.groupId c.continuationId

def queuedEventId : String :=
  "continuation_queued:" ++ (c.groupId ++ ":" ++ c.continuationId ++ ":" ++ toString c.attempt)

/-- The row of `record_continuation_queued`. -/
def queuedCall (sequence recordedAtMs : ℕ) (c : ContinuationRecord) : LedgerRow :=
  ⟨queuedEventId c, sequence, recordedAtMs, .continuationQueued c⟩

/-- The record `r` is of the same continuation as `c` and has its payload; it may have more
metadata. -/
structure HasPayload (r c : ContinuationRecord) : Prop where
  pair : r.pair = c.pair
  childId : r.childId = c.childId
  prompt : r.prompt = c.prompt
  queuedAtMs : r.queuedAtMs = c.queuedAtMs
  attempt : r.attempt = c.attempt
  metadata : ∀ name value, c.metadata.get name = some value → r.metadata.get name = some value

namespace SupervisorState

/-- The record of the continuation is there, with the payload of `c`. -/
def Carries (s : SupervisorState) (c : ContinuationRecord) : Prop :=
  ∃ r, s.continuations.get c.key = some r ∧ HasPayload r c

/-- The payload is new to the state, and no record under its key is ahead of it. -/
structure Takes (s : SupervisorState) (c : ContinuationRecord) : Prop where
  isNew : queuedEventId c ∉ s.appliedEventIds
  notBehind : ∀ existing, s.continuations.get c.key = some existing →
    existing.attempt < c.attempt ∨ existing.status.rank ≤ c.status.rank

end SupervisorState

theorem key_eq_iff {c d : ContinuationRecord} (h : c.pair ≠ d.pair) :
    c.key = d.key ↔ Shifted '/' c.pair d.pair ∨ Shifted '/' d.pair c.pair := by
  have hslash : "/" = Char.toString '/' := rfl
  rw [ContinuationRecord.key, ContinuationRecord.key, continuationKey, continuationKey, hslash,
    join_eq_join_iff]
  exact or_iff_right h

theorem queuedEventId_eq_iff {c d : ContinuationRecord} (h : c.pair ≠ d.pair) :
    queuedEventId c = queuedEventId d ↔
      (Shifted ':' c.pair d.pair ∨ Shifted ':' d.pair c.pair) ∧ c.attempt = d.attempt := by
  have hcolon : ":" = Char.toString ':' := rfl
  unfold queuedEventId
  rewrite [String.append_right_inj, hcolon, join_decimal_eq_iff (by decide), join_eq_join_iff]
  exact and_congr_left fun _ => or_iff_right h

theorem isEmpty_queuedEventId : (queuedEventId c).isEmpty = false := by
  have hne : queuedEventId c ≠ "" := by
    intro h
    have hlist := congrArg String.toList h
    unfold queuedEventId at hlist
    rw [String.toList_append] at hlist
    exact List.append_ne_nil_of_left_ne_nil (by decide) _ hlist
  simpa using hne

theorem get_carryCoalesced {existing next : Metadata} {name : String} {value : Json}
    (h : next.get name = some value) : (carryCoalesced existing next).get name = some value := by
  rw [carryCoalesced]
  generalize coalescedMetadataKeys = keys
  induction keys generalizing next with
  | nil => exact h
  | cons key keys ih =>
    rw [List.foldl_cons]
    apply ih
    split
    · rename_i hnone
      rw [Table.get_insert_of_ne _ _ fun heq => ?_]
      · exact h
      · rw [← heq, h] at hnone
        cases hnone
    · exact h

theorem hasPayload_refl : HasPayload c c :=
  ⟨rfl, rfl, rfl, rfl, rfl, fun _ _ h => h⟩

theorem hasPayload_mergeContinuation (existing c : ContinuationRecord) :
    HasPayload (mergeContinuation existing c) c where
  pair := rfl
  childId := rfl
  prompt := rfl
  queuedAtMs := rfl
  attempt := rfl
  metadata := fun name value h => by
    simp only [mergeContinuation]
    split_ifs
    · exact get_carryCoalesced h
    · exact h

/-! ## One call -/

namespace SupervisorState

variable (s : SupervisorState)

theorem appliedEventIds_upsertContinuation (c : ContinuationRecord) :
    (s.upsertContinuation c).appliedEventIds = s.appliedEventIds := by
  dsimp only [upsertContinuation]
  split
  · rfl
  · split_ifs <;> rfl

theorem get_upsertContinuation_self (c : ContinuationRecord) :
    (s.upsertContinuation c).continuations.get c.key =
      (s.continuations.get c.key).elim (some c) fun existing =>
        if existing.attempt < c.attempt ∨ existing.status.rank ≤ c.status.rank then
          some (mergeContinuation existing c)
        else some existing := by
  have hget : (s.ensureGroup c.groupId c.queuedAtMs).continuations.get c.key =
      s.continuations.get c.key := rfl
  have hkey : continuationKey c.groupId c.continuationId = c.key := rfl
  dsimp only [upsertContinuation]
  rw [hkey, hget]
  cases hexisting : s.continuations.get c.key with
  | none => exact Table.get_insert_self ..
  | some =>
    dsimp only [Option.elim_some]
    split_ifs
    · exact Table.get_insert_self ..
    · exact hexisting

section

variable (s : SupervisorState) (c : ContinuationRecord) (sequence recordedAtMs : ℕ)

theorem accepts_queuedCall :
    s.accepts (queuedCall sequence recordedAtMs c) = true ↔
      queuedEventId c ∉ s.appliedEventIds := by
  simp [accepts, queuedCall, isEmpty_queuedEventId]

theorem mem_appliedEventIds_queuedCall (eventId : String) :
    eventId ∈ (s.applyLedgerRow (queuedCall sequence recordedAtMs c)).appliedEventIds ↔
      eventId ∈ s.appliedEventIds ∨ eventId = queuedEventId c := by
  have hids : (s.applyLedgerRow (queuedCall sequence recordedAtMs c)).appliedEventIds =
      pushUnique s.appliedEventIds (queuedEventId c) := by
    rw [applyLedgerRow]
    split_ifs
    · exact (appliedEventIds_upsertContinuation _ c).trans (by
        simp [acceptLedgerRow, queuedCall, isEmpty_queuedEventId])
    · simp [acceptLedgerRow, queuedCall, isEmpty_queuedEventId]
  rw [hids, pushUnique]
  split_ifs with hmem
  · rw [List.contains_iff_mem] at hmem
    exact ⟨.inl, fun h => h.elim id fun heq => heq ▸ hmem⟩
  · rw [List.mem_append, List.mem_singleton]

theorem get_queuedCall_of_ne {key : String} (h : c.key ≠ key) :
    (s.applyLedgerRow (queuedCall sequence recordedAtMs c)).continuations.get key =
      s.continuations.get key := by
  by_cases haccepts : s.accepts (queuedCall sequence recordedAtMs c)
  · have hstep := continuationStep_applyLedgerRow haccepts key
    generalize (s.applyLedgerRow (queuedCall sequence recordedAtMs c)).continuations.get key =
      after at hstep
    cases hstep with
    | kept => rfl
    | queued _ hkey | merged _ _ hkey => exact absurd hkey h
  · rw [continuations_applyLedgerRow_of_not_accepts haccepts]

/-- **What one call leaves of its payload.** It is there afterwards iff the state took it or had
it. -/
theorem carries_queuedCall_iff :
    (s.applyLedgerRow (queuedCall sequence recordedAtMs c)).Carries c ↔
      s.Takes c ∨ s.Carries c := by
  by_cases haccepts : s.accepts (queuedCall sequence recordedAtMs c)
  · have hnew := (accepts_queuedCall s c sequence recordedAtMs).mp haccepts
    have hafter : (s.applyLedgerRow (queuedCall sequence recordedAtMs c)).continuations.get c.key =
        ((s.acceptLedgerRow (queuedCall sequence recordedAtMs c)).upsertContinuation
          c).continuations.get
          c.key := by
      rw [applyLedgerRow, if_pos haccepts]
      rfl
    have haccepted : (s.acceptLedgerRow (queuedCall sequence recordedAtMs c)).continuations =
        s.continuations := rfl
    rw [Carries, hafter, get_upsertContinuation_self, haccepted]
    cases hexisting : s.continuations.get c.key with
    | none =>
      have htakes : s.Takes c := ⟨hnew, fun existing h => by rw [hexisting] at h; cases h⟩
      exact iff_of_true ⟨c, rfl, hasPayload_refl c⟩ (.inl htakes)
    | some existing =>
      rw [Option.elim_some]
      split_ifs with hbehind
      · have htakes : s.Takes c := ⟨hnew, fun e h => by rw [hexisting] at h; cases h; exact hbehind⟩
        exact iff_of_true ⟨_, rfl, hasPayload_mergeContinuation existing c⟩ (.inl htakes)
      · -- The record is ahead and stays.
        have hnot : ¬s.Takes c := fun htakes => hbehind (htakes.notBehind existing hexisting)
        rw [or_iff_right hnot, Carries, hexisting]
  · have hold := mt (accepts_queuedCall s c sequence recordedAtMs).mpr haccepts
    rw [Carries, continuations_applyLedgerRow_of_not_accepts haccepts]
    exact ⟨.inr, fun h => h.resolve_left fun htakes => hold htakes.isNew⟩

variable {d : ContinuationRecord}

theorem carries_queuedCall_of_ne (h : c.key ≠ d.key) :
    (s.applyLedgerRow (queuedCall sequence recordedAtMs c)).Carries d ↔ s.Carries d := by
  rw [Carries, get_queuedCall_of_ne s c sequence recordedAtMs h, Carries]

theorem takes_queuedCall_of_ne (h : c.key ≠ d.key) :
    (s.applyLedgerRow (queuedCall sequence recordedAtMs c)).Takes d ↔
      s.Takes d ∧ queuedEventId c ≠ queuedEventId d := by
  constructor
  · rintro ⟨hnew, hbehind⟩
    rw [mem_appliedEventIds_queuedCall, not_or] at hnew
    rw [get_queuedCall_of_ne s c sequence recordedAtMs h] at hbehind
    exact ⟨⟨hnew.1, hbehind⟩, Ne.symm hnew.2⟩
  · rintro ⟨⟨hnew, hbehind⟩, hne⟩
    refine ⟨?_, ?_⟩
    · rw [mem_appliedEventIds_queuedCall, not_or]
      exact ⟨hnew, hne.symm⟩
    · rw [get_queuedCall_of_ne s c sequence recordedAtMs h]
      exact hbehind

end

theorem not_carries_both {s : SupervisorState} {c d : ContinuationRecord} (hpair : c.pair ≠ d.pair)
    (hkey : c.key = d.key) : ¬(s.Carries c ∧ s.Carries d) := by
  rintro ⟨⟨r, hr, hc⟩, r', hr', hd⟩
  rw [hkey, hr'] at hr
  cases hr
  exact hpair (hc.pair.symm.trans hd.pair)

/-- **What two calls leave of their payloads.** Both are there afterwards iff no piece moved over
the slash, the state takes or has the first, and it has the second, or takes it and no piece moved
over the colon. -/
theorem carries_both_iff (c d : ContinuationRecord) (hpair : c.pair ≠ d.pair) (n t m u : ℕ) :
    (((s.applyLedgerRow (queuedCall n t c)).applyLedgerRow (queuedCall m u d)).Carries c ∧
      ((s.applyLedgerRow (queuedCall n t c)).applyLedgerRow (queuedCall m u d)).Carries d) ↔
      ¬(Shifted '/' c.pair d.pair ∨ Shifted '/' d.pair c.pair) ∧ (s.Takes c ∨ s.Carries c) ∧
        (s.Carries d ∨ s.Takes d ∧
          ¬((Shifted ':' c.pair d.pair ∨ Shifted ':' d.pair c.pair) ∧ c.attempt = d.attempt)) := by
  rw [← key_eq_iff hpair, ← queuedEventId_eq_iff hpair]
  by_cases hkey : c.key = d.key
  · exact iff_of_false (not_carries_both hpair hkey) fun h => h.1 hkey
  · rw [carries_queuedCall_of_ne _ d m u (Ne.symm hkey), carries_queuedCall_iff,
      carries_queuedCall_iff,
      takes_queuedCall_of_ne s c n t hkey, carries_queuedCall_of_ne s c n t hkey]
    constructor
    · rintro ⟨hc, hd⟩
      exact ⟨hkey, hc, hd.symm⟩
    · rintro ⟨-, hc, hd⟩
      exact ⟨hc, hd.symm⟩

end SupervisorState

/-! ## Two calls and a load -/

/-- **No acknowledged continuation is swallowed, unless a piece of its ids moves over a separator.**
The last two rows of the store are those of two calls for different continuations. A load has the
payloads of both iff no piece of the ids moved over a slash or, at the same attempt, over a colon,
where the store before the calls takes the payloads or has them already. -/
theorem load_carries_both_iff (s : Store) (hs : s.Consistent) (hsnapshot : s.snapshotReadable)
    (rows : List LedgerRow) (hrows : s.readLedgerRows = .ok rows) (earlier : List LedgerRow)
    (c d : ContinuationRecord) (n t m u : ℕ)
    (hcommitted : s.committed = earlier ++ [queuedCall n t c, queuedCall m u d])
    (hpair : c.pair ≠ d.pair) :
    ((loadState rows s.snapshot).Carries c ∧ (loadState rows s.snapshot).Carries d) ↔
      ¬(Shifted '/' c.pair d.pair ∨ Shifted '/' d.pair c.pair) ∧
      ((foldRows earlier).Takes c ∨ (foldRows earlier).Carries c) ∧
      ((foldRows earlier).Carries d ∨ (foldRows earlier).Takes d ∧
        ¬((Shifted ':' c.pair d.pair ∨ Shifted ':' d.pair c.pair) ∧ c.attempt = d.attempt)) := by
  have hload : loadState rows s.snapshot =
      ((foldRows earlier).applyLedgerRow (queuedCall n t c)).applyLedgerRow (queuedCall m u d) := by
    rw [hs.loadState_ledger hsnapshot hrows, hcommitted, foldRows, runSteps_append]
    rfl
  rw [hload]
  exact carries_both_iff (foldRows earlier) c d hpair n t m u

def payloadOf (groupId continuationId prompt : String) : ContinuationRecord :=
  ⟨groupId, continuationId, none, some prompt, .queued, 0, none, none, none, 0, .empty⟩

def afterCalls (c d : ContinuationRecord) : Store :=
  ({} : Store).setLedger (({} : Store).openLedger.writeAllRows [queuedCall 1 0 c, queuedCall 2 0 d])

theorem consistent_afterCalls (c d : ContinuationRecord) : (afterCalls c d).Consistent := by
  refine Store.consistent_initial.setLedger rfl (LedgerFile.rows_writeAllRows ..) ⟨?_, ?_⟩
  · simp [queuedCall]
  · simp [queuedCall]

theorem readLedgerRows_afterCalls (c d : ContinuationRecord) :
    (afterCalls c d).readLedgerRows = .ok [queuedCall 1 0 c, queuedCall 2 0 d] := rfl

theorem takes_empty : (foldRows []).Takes c :=
  ⟨List.not_mem_nil, nofun⟩

/-- Two continuations of one group are both there. -/
theorem load_carries_both_of_one_group :
    (loadState
      [queuedCall 1 0 (payloadOf "g" "a" "first"), queuedCall 2 0 (payloadOf "g" "b" "second")]
        none).Carries (payloadOf "g" "a" "first") ∧
      (loadState
        [queuedCall 1 0 (payloadOf "g" "a" "first"), queuedCall 2 0 (payloadOf "g" "b" "second")]
        none).Carries (payloadOf "g" "b" "second") := by
  have hpair : (payloadOf "g" "a" "first").pair ≠ (payloadOf "g" "b" "second").pair := by decide
  refine (load_carries_both_iff (afterCalls ..) (consistent_afterCalls ..) rfl _
    (readLedgerRows_afterCalls ..) [] (payloadOf "g" "a" "first") (payloadOf "g" "b" "second")
      1 0 2 0 rfl
    hpair).mpr ⟨?_, .inl (takes_empty _), .inr ⟨takes_empty _, ?_⟩⟩
  · rw [← key_eq_iff hpair]
    decide
  · rw [← queuedEventId_eq_iff hpair]
    decide

/-- **Acknowledged continuations are swallowed.** The second call has the event id of the first and
is not applied; or it has its key, and takes its place. -/
theorem load_swallows_continuation :
    (¬(loadState
      [queuedCall 1 0 (payloadOf "g:a" "b" "first"), queuedCall 2 0 (payloadOf "g" "a:b" "second")]
        (afterCalls (payloadOf "g:a" "b" "first") (payloadOf "g" "a:b" "second")).snapshot).Carries
          (payloadOf "g" "a:b" "second")) ∧
      ¬(loadState [queuedCall 1 0 (payloadOf "g/a" "b" "first"),
        queuedCall 2 0 (payloadOf "g" "a/b" "second")]
        (afterCalls (payloadOf "g/a" "b" "first") (payloadOf "g" "a/b" "second")).snapshot).Carries
          (payloadOf "g/a" "b" "first") := by
  constructor
  · rintro ⟨r, hr, -⟩
    have hnone : (loadState [queuedCall 1 0 (payloadOf "g:a" "b" "first"),
        queuedCall 2 0 (payloadOf "g" "a:b" "second")] none).continuations.get
          (payloadOf "g" "a:b" "second").key = none := by decide +kernel
    cases hnone.symm.trans hr
  · rintro ⟨r, hr, hpayload⟩
    have hprompt : ((loadState [queuedCall 1 0 (payloadOf "g/a" "b" "first"),
        queuedCall 2 0 (payloadOf "g" "a/b" "second")] none).continuations.get
          (payloadOf "g/a" "b" "first").key).bind ContinuationRecord.prompt = some "second" := by
      decide +kernel
    have hsecond : r.prompt = some "second" := (congrArg (Option.bind · _) hr).symm.trans hprompt
    exact absurd (hsecond.symm.trans hpayload.prompt) (by decide)

end Octos.Supervision
