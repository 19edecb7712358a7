import Octos.UiLedger.Steps

/-!
# Replay without gaps

A client that reconnects replays a session from the cursor it last saw. The replay is right when it
returns exactly the later events, or refuses because the cursor is out of range.

The ledger keeps this as long as no rotation trims a log record newer than the snapshot file's head.
A rotation does not look at the snapshot: when the logs are trimmed past it, a read that starts from
the snapshot joins its old entries to the logs as if nothing were missing between them.

## Main results

* `replay_noSilentGap`: replays after covered appends have no silent gap
* `trimmedPastSnapshot_gap`: a run after which a replay skips two events
-/

namespace Octos.UiLedger

open List

variable {Body : Type}

section

variable (cfg : LedgerConfig) (stream : String)

/-- A replay from the cursor `c` returns exactly the events after `c` up to the head, or is refused
as out of range. -/
def NoSilentGap (touch : Touch Body) (c : ℕ) (L : Ledger Body) : Prop :=
  (∃ ledgerHead retained, (replayAfterWithHead cfg stream touch (some ⟨stream, c⟩) L).1 =
    .error (.cursorOutOfRange ⟨stream, c⟩ ledgerHead retained)) ∨
  ∃ events head, (replayAfterWithHead cfg stream touch (some ⟨stream, c⟩) L).1 =
    .ok (events, head) ∧
    events.map (·.cursor.seq) = List.range' (c + 1) (head - c) ∧
    head = (replayAfterWithHead cfg stream touch (some ⟨stream, c⟩) L).2.published.length ∧
    events = ((replayAfterWithHead cfg stream touch (some ⟨stream, c⟩) L).2.published.drop c).map
      (·.untagged)

/-- Before an append: a number is left, and a rotation that is due trims no log record newer than
the snapshot file's head. -/
def AppendCovered (L : Ledger Body) : Prop :=
  L.published.length < u64Max ∧ (rotationDue cfg L = true → trimmedCovered cfg L.directory = true)

end

variable {cfg : LedgerConfig} {stream : String} {L : Ledger Body}

theorem suffices_appendCovered : Suffices True cfg (AppendCovered cfg : Ledger Body → Prop) :=
  fun _ hL => ⟨hL.1, fun _ => hL.2⟩

/-! ## Exact replays -/

/-- What a replay after `c` is to return. -/
def eventsAfter (L : Ledger Body) (c : ℕ) : List (LedgeredUiProtocolEvent Body) × ℕ :=
  ((L.published.drop c).map (·.untagged), L.published.length)

section

variable (h : Coherent True stream L)
include h

theorem Coherent.map_entry_drop (c : ℕ) :
    ((L.published.map (·.entry)).drop c).map (·.ledgered stream) = (eventsAfter L c).1 := by
  rw [map_drop, h.history.map_entry_ledgered, ← map_drop]
  rfl

theorem Coherent.map_record_drop (c : ℕ) :
    ((L.published.map (·.record)).drop c).map (·.entry.ledgered stream) = (eventsAfter L c).1 := by
  rw [← h.map_entry_drop, ← h.history.map_record_entry]
  simp [map_drop, Function.comp_def]

variable {c : ℕ}

theorem Coherent.replayFromRing_eq {session : SessionLedger Body} (hsession : session ∈ L.session)
    {result : List (LedgeredUiProtocolEvent Body) × ℕ}
    (hreplay : replayFromRing stream c session = some result) : result = eventsAfter L c := by
  have hnext := (h.session session hsession).next
  have hring := h.ring trivial session hsession
  rw [replayFromRing] at hreplay
  split at hreplay
  next oldest holdest =>
    -- the ring reaches back to the cursor
    split_ifs at hreplay with hrange
    obtain rfl := Option.some.inj hreplay
    have hhead := h.history.numbered_entries.head_suffix hring holdest
    rw [length_map] at hhead
    have hfilter := h.history.numbered_entries.filter_suffix hring (c := c)
      (by rw [length_map]; omega)
    rw [replayFromEntries, hfilter, h.map_entry_drop, hnext]
    rfl
  next hempty =>
    split_ifs at hreplay with hhead
    obtain rfl := Option.some.inj hreplay
    rw [eventsAfter, hhead, hnext, drop_length, map_nil]

theorem Coherent.replayFromDisk_eq (hc : c ≤ L.published.length) :
    (∃ ledgerHead retained, (UiLedger.replayAfterFromDiskWithHead cfg stream ⟨stream, c⟩ L).1 =
      .error (.cursorOutOfRange ⟨stream, c⟩ ledgerHead retained)) ∨
    (UiLedger.replayAfterFromDiskWithHead cfg stream ⟨stream, c⟩ L).1 = .ok (eventsAfter L c) := by
  rw [UiLedger.replayAfterFromDiskWithHead]
  cases hring : L.session.bind (replayFromRing stream c) with
  | some result =>
    obtain ⟨session, hsession, hreplay⟩ := Option.bind_eq_some_iff.mp hring
    right
    rw [h.replayFromRing_eq hsession hreplay]
  | none =>
    cases hread : readSessionDiskSnapshot cfg stream (some c) false L.dir with
    | none =>
      -- nothing on disk: nothing was ever appended
      have hnil := h.empty (h.dir_eq_none hread)
      rw [hnil, length_nil, Nat.le_zero] at hc
      right
      rw [replayNothing, if_pos hc, eventsAfter, hnil, drop_nil]
      rfl
    | some snapshot =>
      obtain ⟨taken, hback⟩ := h.read_eq_some hread
      obtain ⟨first, rest, htaken⟩ := exists_cons_of_ne_nil hback.nonempty
      have holdest : snapshot.oldestSeq = some first.seq := by
        rw [hback.shows.oldest, htaken]
        rfl
      dsimp only
      cases L.session.filter fun existing => snapshot.headSeq < existing.nextSeq with
      | some => exact .inl ⟨_, _, rfl⟩
      | none =>
        rw [holdest]
        dsimp only
        split_ifs with hrange
        · exact .inl ⟨_, _, rfl⟩
        · -- what was read reaches back to the cursor
          right
          have hsuffix := hback.suffix trivial
          have hhead := h.history.numbered_records.head_suffix hsuffix
            (by rw [htaken]; rfl)
          rw [length_map] at hhead
          have hfilter := h.history.numbered_records.filter_suffix hsuffix (c := c)
            (by rw [length_map]; omega)
          have hreplay := hback.shows.replay
          simp only [Option.any_some] at hreplay
          rw [hfilter, h.map_record_drop] at hreplay
          rw [hreplay, hback.shows.head]
          rfl

theorem Coherent.eventsAfter_seqs (c : ℕ) :
    (eventsAfter L c).1.map (·.cursor.seq) = range' (c + 1) (L.published.length - c) := by
  rw [eventsAfter, map_map]
  exact h.history.numbered.map_drop c

end

theorem Coherent.noSilentGap {ok : Ledger Body → Prop} (hok : Suffices True cfg ok)
    (h : Coherent True stream L) {touch : Touch Body} (htouch : TouchMeets cfg stream ok touch L)
    {c : ℕ} (hc : c ≤ L.published.length) : NoSilentGap cfg stream touch c L := by
  obtain ⟨L', hload, h', hpub⟩ := h.ensureSessionLoaded hok htouch
  have hc' : c ≤ L'.published.length := hc.trans hpub.length_le
  rw [NoSilentGap, UiLedger.replayAfterWithHead, hload]
  dsimp only
  rw [if_neg (not_not_intro rfl)]
  cases hring : L'.session.bind (replayFromRing stream c) with
  | some result =>
    obtain ⟨session, hsession, hreplay⟩ := Option.bind_eq_some_iff.mp hring
    obtain rfl := h'.replayFromRing_eq hsession hreplay
    exact .inr ⟨_, _, rfl, h'.eventsAfter_seqs c, rfl, rfl⟩
  | none =>
    rw [replayAfterFromDiskWithHead_published]
    exact (h'.replayFromDisk_eq hc').imp_right fun hdisk =>
      ⟨_, _, hdisk, h'.eventsAfter_seqs c, rfl, rfl⟩

/-- **Replays have no silent gap.** After every run whose appends are covered, a replay from any
cursor issued so far returns exactly the later events or is out of range. -/
theorem replay_noSilentGap (cfg : LedgerConfig) (stream : String) (ops : List (Op Body))
    (hops : Guarded (step cfg stream) (StepMeets cfg stream (AppendCovered cfg)) Ledger.start ops)
    (touch : Touch Body) (htouch : TouchMeets cfg stream (AppendCovered cfg) touch
      (runSteps (step cfg stream) Ledger.start ops))
    (c : ℕ) (hc : c ≤ (runSteps (step cfg stream) Ledger.start ops).published.length) :
    NoSilentGap cfg stream touch c (runSteps (step cfg stream) Ledger.start ops) := by
  obtain ⟨hcoherent, -⟩ := (coherent_start True stream).run suffices_appendCovered hops
  exact hcoherent.noSilentGap suffices_appendCovered htouch hc

instance decidableAppendCovered (cfg : LedgerConfig) (L : Ledger Body) :
    Decidable (AppendCovered cfg L) :=
  inferInstanceAs (Decidable (_ ∧ _))

/-- Appends of events with lines of ten bytes. -/
def plainAppends (n : ℕ) : List (Op Unit) :=
  List.replicate n (.append ⟨true, []⟩ ⟨.notification (.other ()), 0, false, none, 10, true⟩)

/-- A ring of two events, a snapshot every two events, and a rotation at every append with two logs
retained: after five events and an eviction, the replay after cursor 2 reads disk. -/
theorem replay_noSilentGap_twoLogs :
    NoSilentGap ⟨2, 1, 2, 2⟩ "s" ⟨true, []⟩ 2
      (runSteps (step ⟨2, 1, 2, 2⟩ "s") Ledger.start (plainAppends 5 ++ [.evict])) :=
  replay_noSilentGap ⟨2, 1, 2, 2⟩ "s" (plainAppends 5 ++ [.evict]) (by decide +kernel) ⟨true, []⟩
    (by decide +kernel) 2 (by decide +kernel)

/-- **A replay with a gap.** With one log retained and a snapshot every four events, seven events
leave a snapshot of events 3 and 4 and a log of event 7. The replay after cursor 3 returns events 4
and 7. -/
theorem trimmedPastSnapshot_gap :
    ¬ NoSilentGap ⟨2, 1, 1, 4⟩ "s" ⟨true, []⟩ 3
      (runSteps (step ⟨2, 1, 1, 4⟩ "s") Ledger.start (plainAppends 7 ++ [.evict])) := by
  have hreplay : ((replayAfterWithHead ⟨2, 1, 1, 4⟩ "s" ⟨true, []⟩ (some ⟨"s", 3⟩)
      (runSteps (step ⟨2, 1, 1, 4⟩ "s") Ledger.start (plainAppends 7 ++ [.evict]))).1.toOption.map
        fun r => (r.1.map (·.cursor.seq), r.2)) = some ([4, 7], 7) := by decide +kernel
  rintro (⟨ledgerHead, retained, herror⟩ | ⟨events, head, hok, hseqs, -, -⟩)
  · rw [herror] at hreplay
    cases hreplay
  · rw [hok] at hreplay
    obtain ⟨hevents, rfl⟩ := Prod.mk.inj (Option.some.inj hreplay)
    rw [hevents] at hseqs
    exact absurd hseqs (by decide)

end Octos.UiLedger
