import Octos.UiLedger.Coherence

/-!
# Operations keep a session coherent

Every operation on a session keeps the invariant, whether it finds the session in memory, reads it
back from disk, or sweeps orphaned rows after a restart. What the appends of a run must meet is a
parameter `ok` of the state before each append: those an operation makes itself and those that the
sweep makes within it.
-/

namespace Octos.UiLedger

open List Option

variable {Body : Type} (cfg : LedgerConfig) (stream : String)

/-! ## What appends meet -/

/-- Whether the next append rotates the log: by the count in memory, or by the length of the last
file when the session is not in memory. -/
def rotationDue (L : Ledger Body) : Bool :=
  match L.session with
  | some session => rotates cfg session
  | none => L.directory.logs.getLast?.any fun file => cfg.rotateBytes ≤ file.bytes

section

variable (ok : Ledger Body → Prop)

/-- The appends of the sweep, when the first use of the session makes one, meet `ok`. -/
def TouchMeets (touch : Touch Body) (L : Ledger Body) : Prop :=
  L.session = none → ∀ entry ∈ L.index, entry.reconciled = false →
    ∀ snapshot ∈ readSessionDiskSnapshot cfg stream none false L.dir,
      Guarded (sweepStep cfg stream) (fun L _ => ok L) (loadSession cfg touch snapshot L)
        touch.swept

/-- The appends of an operation meet `ok`. -/
def StepMeets (L : Ledger Body) : Op Body → Prop
  | .append touch _ =>
    TouchMeets cfg stream ok touch L ∧ ok (ensureSessionLoaded cfg stream touch L).2
  | .replayAfterWithHead touch _ => TouchMeets cfg stream ok touch L
  | .snapshotWithCursor touch _ _ => TouchMeets cfg stream ok touch L
  | .evict => True
  | .restart => True

instance decidableTouchMeets [DecidablePred ok] (touch : Touch Body) (L : Ledger Body) :
    Decidable (TouchMeets cfg stream ok touch L) :=
  have := decidable_of_iff (L.session.isNone = true) isNone_iff_eq_none
  inferInstanceAs (Decidable (_ → _))

instance decidableStepMeets [DecidablePred ok] (L : Ledger Body) :
    ∀ op : Op Body, Decidable (StepMeets cfg stream ok L op)
  | .append _ _ => inferInstanceAs (Decidable (_ ∧ _))
  | .replayAfterWithHead touch _ => inferInstanceAs (Decidable (TouchMeets cfg stream ok touch L))
  | .snapshotWithCursor touch _ _ => inferInstanceAs (Decidable (TouchMeets cfg stream ok touch L))
  | .evict => .isTrue trivial
  | .restart => .isTrue trivial

end

variable {cfg stream} {joins : Prop} {ok : Ledger Body → Prop} {L : Ledger Body}

/-- What an append needs to keep the invariant. -/
def Suffices (joins : Prop) (cfg : LedgerConfig) (ok : Ledger Body → Prop) : Prop :=
  ∀ L, ok L → L.published.length < u64Max ∧
    (joins → rotationDue cfg L = true → trimmedCovered cfg L.directory = true)

/-! ## The first use of a session -/

theorem Coherent.sweepStep (hok : Suffices joins cfg ok) (h : Coherent joins stream L)
    (hsome : L.session.isSome) (hL : ok L) (input : AppendInput Body) :
    Coherent joins stream (sweepStep cfg stream L input) := by
  obtain ⟨session, hsession⟩ := isSome_iff_exists.mp hsome
  have hbase : appendBase none L = session := by rw [appendBase, hsession, getD_some]
  have hdue : rotationDue cfg L = rotates cfg session := by rw [rotationDue, hsession]
  rw [UiLedger.sweepStep, appendLocked, hbase]
  exact h.appendTo (h.session session hsession) (fun hj => h.ring hj session hsession) (hok L hL).1
    (fun hj hrot => (hok L hL).2 hj (hdue.trans hrot)) input

theorem Coherent.sweep (hok : Suffices joins cfg ok) {swept : List (AppendInput Body)}
    (h : Coherent joins stream L) (hsome : L.session.isSome)
    (hswept : Guarded (UiLedger.sweepStep cfg stream) (fun L _ => ok L) L swept) :
    Coherent joins stream (runSteps (UiLedger.sweepStep cfg stream) L swept) ∧
      (runSteps (UiLedger.sweepStep cfg stream) L swept).session.isSome := by
  refine hswept.invariant (P := fun L => Coherent joins stream L ∧ L.session.isSome) ?_ ⟨h, hsome⟩
  rintro L input ⟨h, hsome⟩ hL
  exact ⟨h.sweepStep hok hsome hL input, rfl⟩

theorem Coherent.writeSnapshot (h : Coherent joins stream L) {session : SessionLedger Body}
    (hsession : L.session = some session) :
    Coherent joins stream { L with dir := L.dir.map (writeSessionSnapshot session) } := by
  have hs := h.session session hsession
  have hring : joins → _ := fun hj => h.ring hj session hsession
  cases hdir : L.dir with
  | none =>
    rw [map_none, ← hdir]
    exact h
  | some dir =>
    obtain rfl := directory_of_mem hdir
    have hwritten :=
      h.written_after h.history (hs.snapshot_kept h.history h.dir) (h.written L.directory hdir)
      ⟨hs.next, hs.entries, hs.active⟩ (fun hj => hs.snapshot_joined h.history (hring hj)) hring
    rwa [← hsession] at hwritten

theorem Coherent.loadSession (h : Coherent joins stream L) (touch : Touch Body)
    {snapshot : DiskSessionSnapshot Body}
    (hread : readSessionDiskSnapshot cfg stream none false L.dir = some snapshot) :
    Coherent joins stream (loadSession cfg touch snapshot L) := by
  have hloaded := h.hydrate hread
  rw [UiLedger.loadSession]
  split_ifs with hbootstrap
  · exact hloaded.writeSnapshot rfl
  · exact hloaded

theorem sweepStep_published (L : Ledger Body) (input : AppendInput Body) :
    L.published <+: (sweepStep cfg stream L input).published :=
  prefix_append ..

theorem sweep_published (L : Ledger Body) (swept : List (AppendInput Body)) :
    L.published <+: (runSteps (sweepStep cfg stream) L swept).published := by
  induction swept generalizing L with
  | nil => exact prefix_rfl
  | cons input swept ih => exact (sweepStep_published L input).trans (ih _)

/-- **The first use of a session** succeeds, and says whether the session is in memory then. -/
theorem Coherent.ensureSessionLoaded (hok : Suffices joins cfg ok) (h : Coherent joins stream L)
    {touch : Touch Body} (htouch : TouchMeets cfg stream ok touch L) :
    ∃ L', ensureSessionLoaded cfg stream touch L = (.ok L'.session.isSome, L') ∧
      Coherent joins stream L' ∧ L.published <+: L'.published := by
  rw [UiLedger.ensureSessionLoaded]
  cases hsession : L.session with
  | some => exact ⟨L, by rw [hsession]; rfl, h, prefix_rfl⟩
  | none =>
    cases hindex : L.index with
    | none => exact ⟨L, by rw [hsession]; rfl, h, prefix_rfl⟩
    | some entry =>
      dsimp only
      rw [h.index entry hindex]
      cases hread : readSessionDiskSnapshot cfg stream none false L.dir with
      | none => exact ⟨L, by rw [hsession]; rfl, h, prefix_rfl⟩
      | some snapshot =>
        obtain ⟨taken, hback⟩ := h.read_eq_some hread
        -- something was read, so the head is not 0
        have hpos : 0 < snapshot.headSeq := by
          obtain ⟨r, hr⟩ := exists_mem_of_ne_nil taken hback.nonempty
          rw [hback.shows.head]
          have hmem := hback.subset hr
          exact length_pos_of_mem (mem_map.mp hmem).choose_spec.1
        dsimp only
        rw [if_neg (by rw [hback.shows.readable]; exact lt_irrefl 0), if_neg (by simp; omega)]
        have hloaded := h.loadSession touch hread
        cases hrec : entry.reconciled with
        | true =>
          refine ⟨finishLoad cfg stream touch entry snapshot L, ?_, ?_, ?_⟩
          all_goals rw [finishLoad, hrec]
          · rfl
          · exact hloaded.withIndex (h.index entry hindex)
          · exact prefix_rfl
        | false =>
          have hswept := htouch hsession entry hindex hrec snapshot hread
          obtain ⟨hcoherent, hsome⟩ := hloaded.sweep hok rfl hswept
          refine ⟨finishLoad cfg stream touch entry snapshot L, ?_, ?_, ?_⟩
          all_goals rw [finishLoad, hrec]
          · simp [hsome]
          · exact hcoherent.withIndex (h.index entry hindex)
          · exact sweep_published (UiLedger.loadSession cfg touch snapshot L) touch.swept

/-! ## Appends -/

/-- The session an append goes to. -/
structure AppendReady (joins : Prop) (cfg : LedgerConfig) (L : Ledger Body)
    (session : SessionLedger Body) : Prop where
  kept : SessionKept L.published L.directory session
  ring : joins → session.entries <:+ L.published.map (·.entry)
  rotation : rotates cfg session = true → rotationDue cfg L = true

section

variable (h : Coherent joins stream L)
include h

theorem Coherent.appendReady_resident {session : SessionLedger Body}
    (hsession : L.session = some session) : AppendReady joins cfg L session where
  kept := h.session session hsession
  ring := fun hj => h.ring hj session hsession
  rotation := by rw [rotationDue, hsession]; exact id

theorem Coherent.appendReady_hydrate (hsession : L.session = none)
    {snapshot : DiskSessionSnapshot Body}
    (hread : readSessionDiskSnapshot cfg stream none false L.dir = some snapshot) :
    AppendReady joins cfg L (hydrateSessionFromSnapshot snapshot) := by
  obtain ⟨taken, hback⟩ := h.read_eq_some hread
  refine ⟨hback.sessionKept h, hback.ring h, fun hrot => ?_⟩
  obtain ⟨file, hfile, hbytes⟩ := map_eq_some_iff.mp hback.bytes.symm
  rw [rotationDue, hsession, hfile]
  simpa [rotates, hydrateSessionFromSnapshot, ← hbytes] using hrot

theorem Coherent.appendReady_new (hdir : L.dir = none) :
    AppendReady joins cfg L SessionLedger.new where
  kept := h.sessionKept_new hdir
  ring := fun _ => nil_suffix
  rotation := fun hrot => absurd hrot Bool.false_ne_true

theorem Coherent.dir_eq_none {after : Option ℕ} {hydrate : Bool}
    (hread : readSessionDiskSnapshot cfg stream after hydrate L.dir = none) : L.dir = none := by
  refine eq_none_iff_forall_not_mem.mpr fun dir hdir => ?_
  obtain ⟨snapshot, -, hfound, -⟩ := h.read cfg after hdir hydrate
  rw [hread] at hfound
  cases hfound

end

variable {touch : Touch Body}

theorem Coherent.snapshotIfSessionAbsent {L' : Ledger Body}
    (hload : UiLedger.ensureSessionLoaded cfg stream touch L = (.ok L'.session.isSome, L'))
    (h : Coherent joins stream L') :
    ∃ preload, snapshotIfSessionAbsent cfg stream touch L = (.ok preload, L') ∧
      AppendReady joins cfg L' (appendBase preload L') := by
  rw [UiLedger.snapshotIfSessionAbsent, hload]
  cases hsession : L'.session with
  | some =>
    refine ⟨none, rfl, ?_⟩
    rw [appendBase, hsession, getD_some]
    exact h.appendReady_resident hsession
  | none =>
    simp only [hsession, isSome_none, Bool.false_eq_true, if_false]
    cases hread : readSessionDiskSnapshot cfg stream none false L'.dir with
    | none =>
      refine ⟨none, rfl, ?_⟩
      rw [appendBase, hsession]
      exact h.appendReady_new (h.dir_eq_none hread)
    | some snapshot =>
      obtain ⟨taken, hback⟩ := h.read_eq_some hread
      refine ⟨some snapshot, ?_, ?_⟩
      · dsimp only
        rw [if_neg (by rw [hback.shows.readable]; exact lt_irrefl 0)]
      · rw [appendBase, hsession]
        exact h.appendReady_hydrate hsession hread

/-- **An append** succeeds: it hands out the next number and keeps the invariant. -/
theorem Coherent.append (hok : Suffices joins cfg ok) (h : Coherent joins stream L)
    (htouch : TouchMeets cfg stream ok touch L)
    (hL : ok (UiLedger.ensureSessionLoaded cfg stream touch L).2) (input : AppendInput Body) :
    ∃ L', append cfg stream touch input L =
        (.ok (input.ledgered stream L'.published.length), L') ∧
      Coherent joins stream L' ∧ L'.session.isSome ∧
      L'.published = (UiLedger.ensureSessionLoaded cfg stream touch L).2.published ++
        [input.ledgered stream L'.published.length] := by
  obtain ⟨M, hload, hM, -⟩ := h.ensureSessionLoaded hok htouch
  obtain ⟨preload, hpreload, hready⟩ := hM.snapshotIfSessionAbsent hload
  rw [hload] at hL ⊢
  obtain ⟨hlt, hcovered⟩ := hok M hL
  have hseq : saturatingAddU64 (appendBase preload M).nextSeq 1 = M.published.length + 1 := by
    rw [saturatingAddU64, hready.kept.next]
    exact min_eq_left hlt
  refine ⟨UiLedger.appendTo cfg stream (appendBase preload M) input M, ?_, ?_, rfl, ?_⟩
  · rw [UiLedger.append, hpreload]
    simp [appendLocked, UiLedger.appendTo, hseq]
  · exact hM.appendTo hready.kept hready.ring hlt
      (fun hj hrot => hcovered hj (hready.rotation hrot)) input
  · simp [UiLedger.appendTo, hseq]

/-! ## Readers -/

/-- A snapshot read from disk some time ago: if no event has come since, the ring may still be
hydrated from it; if one has, the session is in memory. -/
structure Recent (joins : Prop) (L : Ledger Body) (snapshot : DiskSessionSnapshot Body) : Prop where
  head_le : snapshot.headSeq ≤ L.published.length
  absent : L.session = none → snapshot.headSeq = L.published.length
  kept : snapshot.headSeq = L.published.length →
    SessionKept L.published L.directory (hydrateSessionFromSnapshot snapshot)
  ring : joins → snapshot.headSeq = L.published.length →
    (hydrateSessionFromSnapshot snapshot).entries <:+ L.published.map (·.entry)

theorem Coherent.recent {after : Option ℕ} {hydrate : Bool} {snapshot : DiskSessionSnapshot Body}
    (h : Coherent joins stream L)
    (hread : readSessionDiskSnapshot cfg stream after hydrate L.dir = some snapshot) :
    Recent joins L snapshot := by
  obtain ⟨taken, hback⟩ := h.read_eq_some hread
  have hhead : snapshot.headSeq = L.published.length := hback.shows.head
  exact ⟨hhead.le, fun _ => hhead, fun _ => hback.sessionKept h, fun hj _ => hback.ring h hj⟩

/-- The ring is never behind, so a snapshot that is not older than the ring is as new. -/
theorem Coherent.hydrateRing (h : Coherent joins stream L) {snapshot : DiskSessionSnapshot Body}
    (hrecent : Recent joins L snapshot) : Coherent joins stream (hydrateRing snapshot L) := by
  rw [UiLedger.hydrateRing]
  cases hsession : L.session with
  | none =>
    have hhead := hrecent.absent hsession
    exact h.withSession (hrecent.kept hhead) fun hj => hrecent.ring hj hhead
  | some session =>
    have hkept := h.session session hsession
    dsimp only [getD_some]
    split_ifs with hle
    · have hhead := Nat.le_antisymm hrecent.head_le (hkept.next ▸ hle)
      exact h.withSession (hrecent.kept hhead) fun hj => hrecent.ring hj hhead
    · exact h.withSession hkept fun hj => h.ring hj session hsession

theorem Coherent.hydrateForSnapshot (cfg : LedgerConfig) (h : Coherent joins stream L)
    (afterSeq : ℕ) : Coherent joins stream (hydrateForSnapshot cfg stream afterSeq L) ∧
      (UiLedger.hydrateForSnapshot cfg stream afterSeq L).published = L.published := by
  rw [UiLedger.hydrateForSnapshot]
  split_ifs with hmiss
  · cases hread : readSessionDiskSnapshot cfg stream (some afterSeq) true L.dir with
    | none => exact ⟨h, rfl⟩
    | some snapshot => exact ⟨h.hydrateRing (h.recent hread), rfl⟩
  · exact ⟨h, rfl⟩

theorem Coherent.replayAfterFromDiskWithHead (h : Coherent joins stream L) (after : UiCursor) :
    Coherent joins stream (replayAfterFromDiskWithHead cfg stream after L).2 := by
  rw [UiLedger.replayAfterFromDiskWithHead]
  split
  · exact h
  · split
    · exact h
    next hread =>
      repeat' split
      all_goals first
        | exact h
        | exact h.hydrate hread

theorem replayAfterFromDiskWithHead_published (after : UiCursor) :
    (replayAfterFromDiskWithHead cfg stream after L).2.published = L.published := by
  rw [replayAfterFromDiskWithHead]
  repeat' split
  all_goals rfl

variable (hok : Suffices joins cfg ok)
include hok

variable (h : Coherent joins stream L)
include h

theorem Coherent.replayAfterWithHead (htouch : TouchMeets cfg stream ok touch L)
    (after : Option UiCursor) :
    Coherent joins stream (replayAfterWithHead cfg stream touch after L).2 ∧
      L.published <+: (replayAfterWithHead cfg stream touch after L).2.published := by
  obtain ⟨L', hload, h', hpub⟩ := h.ensureSessionLoaded hok htouch
  rw [UiLedger.replayAfterWithHead, hload]
  dsimp only
  repeat' split
  all_goals first
    | exact ⟨h', hpub⟩
    | exact ⟨h'.replayAfterFromDiskWithHead _, by rwa [replayAfterFromDiskWithHead_published]⟩

theorem Coherent.snapshotWithCursor (htouch : TouchMeets cfg stream ok touch L)
    (after : Option UiCursor) (eventFilter : UiProtocolLedgerEvent Body → Bool) :
    Coherent joins stream (snapshotWithCursor cfg stream touch after eventFilter L).2 ∧
      L.published <+: (snapshotWithCursor cfg stream touch after eventFilter L).2.published := by
  obtain ⟨L', hload, h', hpub⟩ := h.ensureSessionLoaded hok htouch
  obtain ⟨hhydrated, hsame⟩ := h'.hydrateForSnapshot cfg (after.getD ⟨stream, 0⟩).seq
  rw [UiLedger.snapshotWithCursor, hload]
  dsimp only
  split
  · exact ⟨h, prefix_rfl⟩
  · exact ⟨hhydrated, hsame.symm ▸ hpub⟩

/-- **Every operation** whose appends meet what suffices keeps the invariant, and takes back no
event. -/
theorem Coherent.step {op : Op Body} (hop : StepMeets cfg stream ok L op) :
    Coherent joins stream (step cfg stream L op) ∧
      L.published <+: (step cfg stream L op).published := by
  cases op with
  | append touch input =>
    obtain ⟨L', happend, h', -, hpub⟩ := h.append hok hop.1 hop.2 input
    obtain ⟨M, hload, -, hM⟩ := h.ensureSessionLoaded hok hop.1
    rw [hload] at hpub
    rw [UiLedger.step, happend]
    refine ⟨h', ?_⟩
    rw [hpub]
    exact hM.trans (prefix_append ..)
  | replayAfterWithHead touch after => exact h.replayAfterWithHead hok hop after
  | snapshotWithCursor touch after eventFilter =>
    exact h.snapshotWithCursor hok hop after eventFilter
  | evict => exact ⟨h.dropSession h.index, prefix_rfl⟩
  | restart =>
    refine ⟨h.dropSession fun entry hentry => ?_, prefix_rfl⟩
    obtain ⟨-, -, rfl⟩ := map_eq_some_iff.mp hentry
    rfl

theorem Coherent.run {ops : List (Op Body)}
    (hops : Guarded (UiLedger.step cfg stream) (StepMeets cfg stream ok) L ops) :
    Coherent joins stream (runSteps (UiLedger.step cfg stream) L ops) ∧
      L.published <+: (runSteps (UiLedger.step cfg stream) L ops).published :=
  hops.invariant (P := fun M => Coherent joins stream M ∧ L.published <+: M.published)
    (fun _ _ hM hop => ⟨(hM.1.step hok hop).1, hM.2.trans (hM.1.step hok hop).2⟩)
    ⟨h, prefix_rfl⟩

end Octos.UiLedger
