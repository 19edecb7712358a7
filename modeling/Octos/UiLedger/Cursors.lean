import Octos.UiLedger.Calls
import Octos.UiLedger.Replay

/-!
# Cursors are never reused

The next sequence number of a session lives in memory and is rebuilt from disk on every path that
brings the session back. The logs always hold the last event, so it is rebuilt to the number of
events appended so far, also when the snapshot file is old or the logs no longer reach back to it.

Between its sections a call relies on the session staying in memory: while it does, what the call
has read is as new as the ring, or the guards of the last section keep the ring. An eviction in
between takes that away, and an append then starts the numbers again.

Numbers are `u64` and their increment saturates, so they run out after 2^64 - 1 events.

## Main results

* `perform_sound`: a section of a call leaves the others what they rely on
* `cursors_fresh`: the numbers are 1, 2, 3, …, and heads fit them
* `evicted_append_repeats`: an eviction between the sections of an append
-/

namespace Octos.UiLedger

open UiLedger.Ledger List

variable {Body : Type}

/-- The sequence numbers handed out so far, in order. -/
def handedOut (L : Ledger Body) : List ℕ := numbers L.published

def HasRoom (L : Ledger Body) : Prop := L.published.length < u64Max

variable {cfg : LedgerConfig} {stream : String} {L : Ledger Body} {joins : Prop}

instance decidableHasRoom (L : Ledger Body) : Decidable (HasRoom L) :=
  inferInstanceAs (Decidable (_ < _))

/-! ## Heads -/

/-- The head is within the numbers handed out, and no number of the events is past it. -/
structure HeadFits (L : Ledger Body) (events : List (LedgeredUiProtocolEvent Body)) (head : ℕ) :
    Prop where
  issued : head ≤ L.published.length
  covers : ∀ e ∈ events, e.cursor.seq ≤ head

variable {head : ℕ}

theorem headFits_nil (h : head ≤ L.published.length) : HeadFits L [] head :=
  ⟨h, by simp⟩

theorem Coherent.headFits_entries (h : Coherent joins stream L) {entries : List (LedgerEntry Body)}
    (hentries : entries ⊆ L.published.map (·.entry)) :
    HeadFits L (entries.map (·.ledgered stream)) L.published.length := by
  refine ⟨le_rfl, fun e he => ?_⟩
  obtain ⟨entry, hentry, rfl⟩ := mem_map.mp he
  have hle := (h.history.numbered_entries.mem_le (hentries hentry)).2
  rwa [length_map] at hle

theorem Coherent.headFits_records (h : Coherent joins stream L)
    {records : List (LedgerDiskRecord Body)} (hrecords : records ⊆ L.published.map (·.record)) :
    HeadFits L (records.map (·.entry.ledgered stream)) L.published.length := by
  refine ⟨le_rfl, fun e he => ?_⟩
  obtain ⟨r, hr, rfl⟩ := mem_map.mp he
  have hle := (h.history.numbered_records.mem_le (hrecords hr)).2
  rwa [length_map] at hle

variable {result : List (LedgeredUiProtocolEvent Body) × ℕ} {session : SessionLedger Body}

theorem Coherent.headFits_ring (h : Coherent joins stream L)
    (hsession : session ∈ L.session) {c : ℕ}
    (hreplay : replayFromRing stream c session = some result) : HeadFits L result.1 result.2 := by
  have hkept := h.session session hsession
  rw [replayFromRing] at hreplay
  split at hreplay
  · split_ifs at hreplay
    obtain rfl := Option.some.inj hreplay
    rw [replayFromEntries, hkept.next]
    exact h.headFits_entries fun e he => hkept.entries (mem_of_mem_filter he)
  · split_ifs at hreplay
    obtain rfl := Option.some.inj hreplay
    exact headFits_nil hkept.next.le

theorem headFits_replayNothing {after : UiCursor}
    (hreplay : replayNothing stream after = .ok result) : HeadFits L result.1 result.2 := by
  rw [replayNothing] at hreplay
  split_ifs at hreplay
  obtain rfl := Except.ok.inj hreplay
  exact headFits_nil (Nat.zero_le _)

theorem Coherent.headFits_disk (h : Coherent joins stream L) {after : UiCursor}
    (hreplay : (UiLedger.replayAfterFromDiskWithHead cfg stream after L).1 = .ok result) :
    HeadFits L result.1 result.2 := by
  rw [UiLedger.replayAfterFromDiskWithHead] at hreplay
  split at hreplay
  next found hring =>
    obtain ⟨session, hsession, hfound⟩ := Option.bind_eq_some_iff.mp hring
    obtain rfl := Except.ok.inj hreplay
    exact h.headFits_ring hsession hfound
  · split at hreplay
    · exact headFits_replayNothing hreplay
    next snapshot hread =>
      obtain ⟨taken, hback⟩ := h.read_eq_some hread
      split at hreplay
      · cases hreplay
      · split at hreplay
        · exact headFits_replayNothing hreplay
        · split_ifs at hreplay
          obtain rfl := Except.ok.inj hreplay
          rw [hback.shows.replay, hback.shows.head]
          exact h.headFits_records fun r hr => hback.subset (mem_of_mem_filter hr)

theorem Coherent.headFits_answer (h : Coherent joins stream L) {after : UiCursor}
    {eventFilter : UiProtocolLedgerEvent Body → Bool}
    {result : List (LedgeredUiProtocolEvent Body) × UiCursor}
    (hanswer : answerSnapshot stream after eventFilter L.session = .ok result) :
    HeadFits L result.1 result.2.seq := by
  cases hsession : L.session with rw [hsession] at hanswer
  | none =>
    obtain rfl := Except.ok.inj hanswer
    exact headFits_nil (Nat.zero_le _)
  | some session =>
    have hkept := h.session session hsession
    rw [answerSnapshot] at hanswer
    split_ifs at hanswer with hrange
    obtain rfl := Except.ok.inj hanswer
    rw [hkept.next]
    exact h.headFits_entries fun e he => hkept.entries (mem_of_mem_filter he)

/-! ## What a call relies on -/

/-- While no session is evicted, sections only add events, and the directory of a session outside
memory stays as it is. -/
structure Grows (L L' : Ledger Body) : Prop where
  published : L.published <+: L'.published
  logs : L'.published = L.published → L'.directory.logs = L.directory.logs
  absent : L'.session = none → L.session = none ∧ L'.dir = L.dir ∧ L'.published = L.published

theorem Grows.refl (L : Ledger Body) : Grows L L :=
  ⟨prefix_rfl, fun _ => rfl, fun h => ⟨h, rfl, rfl⟩⟩

theorem grows_withSession (session : SessionLedger Body) :
    Grows L { L with session := some session } :=
  ⟨prefix_rfl, fun _ => rfl, nofun⟩

variable {L' : Ledger Body} {snapshot : DiskSessionSnapshot Body}

theorem Recent.grows (h : Recent False L snapshot) (hg : Grows L L') :
    Recent False L' snapshot := by
  have hlen := hg.published.length_le
  -- With no event since the read, nothing that hydration needs has changed.
  have hsame : snapshot.headSeq = L'.published.length →
      L'.published = L.published ∧ snapshot.headSeq = L.published.length := by
    intro hhead
    have hle := h.head_le
    exact ⟨(hg.published.eq_of_length (by omega)).symm, by omega⟩
  refine ⟨h.head_le.trans hlen, fun habsent => ?_, fun hhead => ?_, False.elim⟩
  · obtain ⟨hnone, -, hpub⟩ := hg.absent habsent
    rw [hpub]
    exact h.absent hnone
  · obtain ⟨hpub, hhead⟩ := hsame hhead
    obtain ⟨hnext, hentries, hactive⟩ := h.kept hhead
    rw [hpub]
    exact ⟨hnext, hentries, by rw [hg.logs hpub]; exact hactive⟩

/-- What a section to come relies on: a snapshot to hydrate from is recent, and an append to a
session outside memory starts from what disk holds. -/
def Act.Holds (cfg : LedgerConfig) (stream : String) (L : Ledger Body) : Act Body → Prop
  | .on _ (.load _ _ snapshot) => Recent False L snapshot
  | .on (.append _) (.finish preload) =>
    L.session = none → readSessionDiskSnapshot cfg stream none false L.dir = preload
  | .on (.snapshotWithCursor _ _) (.finish preload) => ∀ snapshot ∈ preload, Recent False L snapshot
  | _ => True

theorem Act.Holds.grows {a : Act Body} (h : a.Holds cfg stream L) (hg : Grows L L') :
    a.Holds cfg stream L' := by
  cases a with
  | evict => trivial
  | on call stage =>
    cases stage with
    | load => exact Recent.grows h hg
    | finish preload =>
      cases call with
      | append =>
        intro habsent
        obtain ⟨hnone, hdir, -⟩ := hg.absent habsent
        rw [hdir]
        exact h hnone
      | replayAfterWithHead => trivial
      | snapshotWithCursor => exact fun snapshot hsnapshot => (h snapshot hsnapshot).grows hg
    | _ => trivial

/-- **A section is sound**: the invariant holds after it, the others can go on, what follows can
rely on what it needs, and a reply fits the numbers handed out. -/
structure Outcome.Sound (cfg : LedgerConfig) (stream : String) (L : Ledger Body)
    (out : Outcome Body) : Prop where
  coherent : Coherent False stream out.ledger
  grows : Grows L out.ledger
  next : ∀ a ∈ out.next.getD [], a.Holds cfg stream out.ledger
  reply : ∀ r ∈ out.reply, r.2 ≤ out.ledger.published.length ∧ ∀ n ∈ r.1, n ≤ r.2

/-! ## Sections -/

section

variable {call : Call Body} {next : List (Act Body)} {preload : Option (DiskSessionSnapshot Body)}

theorem sound_proceed (h : Coherent False stream L') (hg : Grows L L')
    (hnext : ∀ a ∈ next, a.Holds cfg stream L') : (proceed L' next).Sound cfg stream L :=
  ⟨h, hg, hnext, nofun⟩

theorem holds_append_resident (hsome : L.session.isSome) (input : AppendInput Body) :
    (Act.on (.append input) (.finish preload)).Holds cfg stream L := by
  intro hnone
  rw [hnone] at hsome
  cases hsome

theorem holds_loaded_resident (hsome : L.session.isSome) :
    (call.loaded true).Holds cfg stream L := by
  cases call with
  | append input => exact holds_append_resident hsome input
  | replayAfterWithHead | snapshotWithCursor => trivial

theorem holds_loaded_absent : (call.loaded false).Holds cfg stream L := by
  cases call <;> trivial

theorem holds_of_if {b : Bool} {a : Act Body} (ha : a.Holds cfg stream L) :
    ∀ c ∈ (if b then [a] else []), c.Holds cfg stream L := by
  cases b with
  | false => exact forall_mem_nil _
  | true => exact forall_mem_singleton.mpr ha

section

variable (h : Coherent False stream L)
include h

theorem Coherent.sound_next (hnext : ∀ a ∈ next, a.Holds cfg stream L) :
    (proceed L next).Sound cfg stream L :=
  sound_proceed h (.refl L) hnext

theorem Coherent.sound_fail : Outcome.Sound cfg stream L ⟨L, none, none⟩ :=
  ⟨h, .refl L, by simp, nofun⟩

theorem Coherent.sound_reply {events : List (LedgeredUiProtocolEvent Body)} {head : ℕ}
    (hfits : HeadFits L events head) :
    Outcome.Sound cfg stream L ⟨L, some [], some (numbers events, head)⟩ := by
  refine ⟨h, .refl L, by simp, ?_⟩
  rintro _ ⟨⟩
  exact ⟨hfits.issued, by simpa [numbers] using hfits.covers⟩

theorem Coherent.sound_readable
    (hread : readSessionDiskSnapshot cfg stream none false L.dir = some snapshot)
    (hnext : ∀ a ∈ next, a.Holds cfg stream L) : (readable L snapshot next).Sound cfg stream L := by
  obtain ⟨taken, hback⟩ := h.read_eq_some hread
  rw [readable, if_neg (by rw [hback.shows.readable]; exact lt_irrefl 0)]
  exact h.sound_next hnext

theorem Coherent.sound_check : (check stream L call).Sound cfg stream L := by
  cases call with
  | append =>
    refine h.sound_next (forall_mem_singleton.mpr ?_)
    split_ifs with hsome
    · exact holds_append_resident hsome _
    · trivial
  | replayAfterWithHead after =>
    cases after with
    | none =>
      refine h.sound_reply (headFits_nil ?_)
      cases hsession : L.session with
      | none => exact Nat.zero_le _
      | some session => exact (h.session session hsession).next.le
    | some after =>
      rw [check]
      split_ifs
      · exact h.sound_fail
      · cases hring : L.session.bind (replayFromRing stream after.seq) with
        | none => exact h.sound_next (by simp [Act.Holds])
        | some result =>
          obtain ⟨session, hsession, hreplay⟩ := Option.bind_eq_some_iff.mp hring
          exact h.sound_reply (h.headFits_ring hsession hreplay)
  | snapshotWithCursor =>
    refine h.sound_next (forall_mem_singleton.mpr ?_)
    split_ifs
    · trivial
    · rintro _ ⟨⟩

theorem Coherent.sound_preload : (UiLedger.preload cfg stream L call).Sound cfg stream L := by
  cases call with
  | append =>
    rw [UiLedger.preload]
    cases hread : readSessionDiskSnapshot cfg stream none false L.dir with
    | none => exact h.sound_next (forall_mem_singleton.mpr fun _ => hread)
    | some => exact h.sound_readable hread (forall_mem_singleton.mpr fun _ => hread)
  | replayAfterWithHead => exact h.sound_next (forall_mem_nil _)
  | snapshotWithCursor =>
    exact h.sound_next (forall_mem_singleton.mpr fun _ hsnapshot => h.recent hsnapshot)

theorem Coherent.appendReady (hpreload : L.session = none →
      readSessionDiskSnapshot cfg stream none false L.dir = preload) :
    AppendReady False cfg L (appendBase preload L) := by
  rw [appendBase]
  cases hsession : L.session with
  | some => exact h.appendReady_resident hsession
  | none =>
    have hread := hpreload hsession
    cases preload with
    | none => exact h.appendReady_new (h.dir_eq_none hread)
    | some => exact h.appendReady_hydrate hsession hread

theorem Coherent.sound_finish (hroom : HasRoom L)
    (hact : (Act.on call (.finish preload)).Holds cfg stream L) :
    (finish cfg stream L preload call).Sound cfg stream L := by
  cases call with
  | append input =>
    have hready := h.appendReady hact
    refine sound_proceed (h.appendTo hready.kept hready.ring hroom False.elim input) ?_
      (forall_mem_nil _)
    refine ⟨prefix_append .., fun hsame => absurd (congrArg length hsame) ?_, nofun⟩
    simp [appendLocked, UiLedger.appendTo]
  | replayAfterWithHead after =>
    refine ⟨h.replayAfterFromDiskWithHead _, ?_, forall_mem_nil _, ?_⟩
    · rw [finish, UiLedger.replayAfterFromDiskWithHead]
      repeat' split
      all_goals first
        | exact .refl L
        | exact grows_withSession _
    · intro r hr
      obtain ⟨result, hresult, rfl⟩ := Option.map_eq_some_iff.mp hr
      obtain ⟨hissued, hcovers⟩ := h.headFits_disk (except_toOption_eq_some.mp hresult)
      rw [finish, replayAfterFromDiskWithHead_published]
      exact ⟨hissued, by simpa [numbers] using hcovers⟩
  | snapshotWithCursor =>
    -- The ring that answers.
    obtain ⟨hring, hg⟩ : Coherent False stream (preload.elim L (UiLedger.hydrateRing · L)) ∧
        Grows L (preload.elim L (UiLedger.hydrateRing · L)) := by
      cases preload with
      | none => exact ⟨h, .refl L⟩
      | some snapshot => exact ⟨h.hydrateRing (hact snapshot rfl), grows_withSession _⟩
    refine ⟨hring, hg, forall_mem_nil _, fun r hr => ?_⟩
    obtain ⟨result, hresult, rfl⟩ := Option.map_eq_some_iff.mp hr
    obtain ⟨hissued, hcovers⟩ := hring.headFits_answer (except_toOption_eq_some.mp hresult)
    exact ⟨hissued, by simpa [numbers] using hcovers⟩

/-- **Every section is sound**, if no session is evicted while a call is under way. -/
theorem Coherent.perform_sound (hroom : HasRoom L) {stage : Stage Body}
    (hact : (Act.on call stage).Holds cfg stream L) (touch : Touch Body) :
    (perform cfg stream touch L call stage).Sound cfg stream L := by
  cases stage with
  | look =>
    rw [perform]
    split
    · exact h.sound_fail
    · refine h.sound_next (forall_mem_singleton.mpr ?_)
      split_ifs with hsome
      · exact holds_loaded_resident hsome
      · trivial
  | lookUp =>
    rw [perform]
    cases L.index with
    | none => exact h.sound_next (forall_mem_singleton.mpr holds_loaded_absent)
    | some entry =>
      dsimp only
      split_ifs
      · exact h.sound_fail
      · exact h.sound_next (by simp [Act.Holds])
  | read =>
    rw [perform]
    cases hread : readSessionDiskSnapshot cfg stream none false L.dir with
    | none => exact h.sound_next (forall_mem_singleton.mpr holds_loaded_absent)
    | some snapshot =>
      refine h.sound_readable hread (forall_mem_singleton.mpr ?_)
      split_ifs
      · exact holds_loaded_absent
      · exact h.recent hread
  | load reconciled usable snapshot =>
    refine sound_proceed (h.hydrateRing hact) (grows_withSession _) ?_
    simp only [forall_mem_append, forall_mem_singleton]
    exact ⟨⟨⟨holds_of_if trivial, holds_of_if trivial⟩, holds_of_if trivial⟩,
      holds_loaded_resident rfl⟩
  | bootstrap =>
    rw [perform]
    split
    next session hsession =>
      split_ifs
      · refine sound_proceed (h.writeSnapshot hsession) ⟨prefix_rfl, fun _ => ?_, ?_⟩
          (forall_mem_nil _)
        · rw [directory, directory]
          cases L.dir <;> rfl
        · intro hnone
          cases hsession.symm.trans hnone
      · exact h.sound_next (forall_mem_nil _)
    · exact h.sound_next (forall_mem_nil _)
  | sweep =>
    refine h.sound_next fun a ha => ?_
    split_ifs at ha
    · obtain ⟨input, -, rfl⟩ := mem_map.mp ha
      trivial
    · cases ha
  | mark =>
    refine sound_proceed ?_ ⟨prefix_rfl, fun _ => rfl, fun hnone => ⟨hnone, rfl, rfl⟩⟩
      (forall_mem_nil _)
    refine { h with index := fun entry hentry => ?_ }
    obtain ⟨old, hold, rfl⟩ := Option.map_eq_some_iff.mp hentry
    exact h.index old hold
  | check => exact h.sound_check
  | preload => exact h.sound_preload
  | finish => exact h.sound_finish hroom hact

end

end

/-! ## Runs -/

def Act.isEvict : Act Body → Bool
  | .evict => true
  | .on _ _ => false

/-- A call that has not begun. -/
def Act.waits : Act Body → Bool
  | .evict => true
  | .on _ .look => true
  | .on _ _ => false

/-- A number is left for every section, and the session is evicted only while no call is under
way. -/
def Calm (p : Threads Body) : Turn Body → Prop
  | .move (.run i _) => HasRoom p.shared.ledger ∧
      ((p.next i).any Act.isEvict → p.acts.all Act.waits)
  | .move (.spawn _) => True
  | .restart => True

/-- What holds of the service between two turns. -/
structure Serves (cfg : LedgerConfig) (stream : String) (p : Threads Body) : Prop where
  coherent : Coherent False stream p.shared.ledger
  acts : ∀ a ∈ p.acts, a.Holds cfg stream p.shared.ledger
  replies : ∀ r ∈ p.shared.replies, (∀ n ∈ r.numbers, n ≤ r.head) ∧ r.head ≤ r.issued ∧
    r.issued ≤ p.shared.ledger.published.length

theorem Act.holds_of_waits {a : Act Body} (h : a.waits = true) : a.Holds cfg stream L := by
  cases a with
  | evict => trivial
  | on call stage =>
    cases stage with
    | look => trivial
    | _ => cases h

section

variable {p : Threads Body}

theorem Serves.restart (h : Serves cfg stream p) :
    Serves cfg stream (turn cfg stream p .restart) where
  coherent := by
    refine h.coherent.dropSession fun entry hentry => ?_
    obtain ⟨-, -, rfl⟩ := Option.map_eq_some_iff.mp hentry
    rfl
  acts := forall_mem_nil _
  replies := h.replies

theorem Serves.run (h : Serves cfg stream p) {i : ℕ} {touch : Touch Body} {a : Act Body}
    (hnext : p.next i = some a) (hcalm : Calm p (.move (.run i touch))) :
    Serves cfg stream (p.step startCall (execute cfg stream) (.run i touch)) := by
  have hshared : (p.step startCall (execute cfg stream) (.run i touch)).shared =
      (execute cfg stream touch p.shared a).1 := Pool.shared_run hnext
  obtain ⟨hroom, hquiet⟩ := hcalm
  cases a with
  | evict =>
    -- An eviction is calm only while no call is between its critical sections.
    have hwaits := hquiet (by rw [hnext]; rfl)
    refine ⟨?_, fun b hb => ?_, ?_⟩
    · rw [hshared]
      exact h.coherent.dropSession h.coherent.index
    · rcases Pool.mem_acts_run hnext hb with hb | hb
      · exact Act.holds_of_waits (all_eq_true.mp hwaits b hb)
      · cases hb
    · rw [hshared]
      exact h.replies
  | on call stage =>
    -- A section keeps the ledger coherent, and what the other calls hold stays true as it grows.
    have hsound := h.coherent.perform_sound hroom (h.acts _ (Pool.mem_acts_of_next hnext)) touch
    refine ⟨?_, fun b hb => ?_, ?_⟩
    · rw [hshared]
      exact hsound.coherent
    · rw [hshared]
      rcases Pool.mem_acts_run hnext hb with hb | hb
      · exact (h.acts b hb).grows hsound.grows
      · exact hsound.next b hb
    · rw [hshared]
      intro r hr
      rcases mem_append.mp hr with hr | hr
      · obtain ⟨hcovers, hhead, hissued⟩ := h.replies r hr
        exact ⟨hcovers, hhead, hissued.trans hsound.grows.published.length_le⟩
      · obtain ⟨reply, hreply, rfl⟩ := Option.map_eq_some_iff.mp (Option.mem_toList.mp hr)
        obtain ⟨hhead, hcovers⟩ := hsound.reply reply hreply
        exact ⟨hcovers, hhead, le_rfl⟩

theorem Serves.turn (h : Serves cfg stream p) {t : Turn Body} (hcalm : Calm p t) :
    Serves cfg stream (turn cfg stream p t) := by
  cases t with
  | restart => exact h.restart
  | move move =>
    cases move with
    | spawn call =>
      refine ⟨h.coherent, fun a ha => ?_, h.replies⟩
      change a ∈ (p.step startCall (execute cfg stream) (.spawn call)).acts at ha
      rcases Pool.mem_acts_spawn.mp ha with ha | ha
      · exact h.acts a ha
      · cases call <;> cases mem_singleton.mp ha <;> trivial
    | run i touch =>
      cases hnext : p.next i with
      | none =>
        rw [UiLedger.turn, Pool.step_run_none hnext]
        exact h
      | some => exact h.run hnext hcalm

end

/-- **Cursors are never reused.** While numbers are left and no eviction falls between the sections
of a call, the numbers handed out along a run are 1, 2, 3, …; the head of a reply is at least every
number in it, and below every number handed out after the reply. -/
theorem cursors_fresh (cfg : LedgerConfig) (stream : String) (turns : List (Turn Body))
    (hcalm : Guarded (turn cfg stream) Calm ⟨.start, []⟩ turns) :
    handedOut (runSteps (turn cfg stream) ⟨.start, []⟩ turns).shared.ledger =
        List.range' 1
          (runSteps (turn cfg stream) ⟨.start, []⟩ turns).shared.ledger.published.length ∧
      ∀ r ∈ (runSteps (turn cfg stream) ⟨.start, []⟩ turns).shared.replies,
        (∀ n ∈ r.numbers, n ≤ r.head) ∧
        ∀ n ∈ (handedOut (runSteps (turn cfg stream) ⟨.start, []⟩ turns).shared.ledger).drop
          r.issued, r.head < n := by
  have hserves : Serves cfg stream (runSteps (turn cfg stream) ⟨.start, []⟩ turns) :=
    hcalm.invariant (fun _ _ h hcalm => h.turn hcalm)
      ⟨coherent_start False stream, forall_mem_nil _, forall_mem_nil _⟩
  refine ⟨hserves.coherent.history.numbered, fun r hr => ?_⟩
  obtain ⟨hcovers, hhead, -⟩ := hserves.replies r hr
  refine ⟨hcovers, fun n hn => ?_⟩
  rw [handedOut, numbers, ← List.map_drop, hserves.coherent.history.numbered.map_drop,
    mem_range'_1] at hn
  omega

/-- An append of an event with a line of ten bytes. -/
def plainAppend : Turn Unit :=
  .move (.spawn (some (.append ⟨.notification (.other ()), 0, false, none, 10, true⟩)))

/-- The next `n` sections of a thread. -/
def sections (n thread : ℕ) (swept : List (AppendInput Unit)) : List (Turn Unit) :=
  List.replicate n (.move (.run thread ⟨true, swept⟩))

instance decidableCalm (p : Threads Body) : ∀ t : Turn Body, Decidable (Calm p t)
  | .move (.run _ _) => inferInstanceAs (Decidable (_ ∧ _))
  | .move (.spawn _) => .isTrue trivial
  | .restart => .isTrue trivial

/-- Two appends read the empty directory before either writes; then an eviction, a replay from disk,
and after a restart an append whose first use of the session sweeps an orphaned row. -/
theorem cursors_fresh_interleaved :
    handedOut (runSteps (turn ⟨2, 1, 2, 2⟩ "s") ⟨.start, []⟩
      (plainAppend :: plainAppend :: sections 4 0 [] ++ sections 5 1 [] ++ sections 1 0 [] ++
        .move (.spawn none) :: sections 1 2 [] ++
        .move (.spawn (some (.replayAfterWithHead (some ⟨"s", 1⟩)))) :: sections 4 3 [] ++
        .restart :: plainAppend ::
          sections 9 0 [⟨.notification (.other ()), 0, false, none, 10, true⟩])).shared.ledger =
      [1, 2, 3, 4] :=
  (cursors_fresh ⟨2, 1, 2, 2⟩ "s" _ (by decide +kernel)).1

/-- **An eviction between the sections of an append.** The second append has found the session in
memory when it is evicted, and starts it anew. -/
theorem evicted_append_repeats :
    handedOut (runSteps (turn ⟨2, 1, 2, 2⟩ "s") ⟨.start, []⟩
      (plainAppend :: sections 5 0 [] ++ plainAppend :: sections 1 1 [] ++
        .move (.spawn none) :: sections 1 2 [] ++ sections 1 1 [])).shared.ledger =
      [1, 1] := by
  decide +kernel

end Octos.UiLedger
