import Octos.UiLedger.Ledger

/-!
# What a session holds

Whatever an operation does with a session, the events in its ring, its snapshot file and its logs
are events that were there before or that the operation appends. So a property of events that holds
of everything kept holds of everything read back later, without any count of sequence numbers.
-/

namespace Octos.UiLedger

open List DiskScan

variable {Body : Type} {cfg : LedgerConfig} {stream : String}
  {p q : UiProtocolLedgerEvent Body → Prop}

/-! ## What is kept -/

/-- Every event in the logs and in the snapshot file satisfies `p`. -/
structure SessionDir.Holds (p : UiProtocolLedgerEvent Body → Prop) (dir : SessionDir Body) :
    Prop where
  logs : ∀ r ∈ dir.records, p r.event
  snapshot : ∀ snapshot ∈ dir.snapshot, ∀ r ∈ snapshot.entries, p r.event

/-- Every event kept in memory or on disk satisfies `p`. -/
structure Ledger.Holds (p : UiProtocolLedgerEvent Body → Prop) (L : Ledger Body) : Prop where
  dir : ∀ dir ∈ L.dir, dir.Holds p
  ring : ∀ session ∈ L.session, ∀ e ∈ session.entries, p e.event

variable {L L' : Ledger Body}

theorem Ledger.Holds.mono (h : L.Holds p) (hpq : ∀ ev, p ev → q ev) :
    L.Holds q where
  dir := fun dir hdir => ⟨fun r hr => hpq _ ((h.dir dir hdir).logs r hr),
    fun s hs r hr => hpq _ ((h.dir dir hdir).snapshot s hs r hr)⟩
  ring := fun session hs e he => hpq _ (h.ring session hs e he)

theorem Ledger.Holds.directory (h : L.Holds p) : L.directory.Holds p := by
  rw [Ledger.directory]
  cases hdir : L.dir with
  | none => exact ⟨by simp [SessionDir.records], by simp⟩
  | some dir => exact h.dir dir hdir

/-! ## Reading back -/

/-- What a scan has taken up satisfies `p`. -/
structure DiskScan.Holds (p : UiProtocolLedgerEvent Body → Prop) (scan : DiskScan Body) : Prop where
  retained : ∀ e ∈ scan.retainedEntries, p e.event
  replay : ∀ e ∈ scan.replayEntries, p e.event

variable {scan : DiskScan Body} {r : LedgerDiskRecord Body}

theorem DiskScan.Holds.materialise (h : scan.Holds p) (after : Option ℕ) (hr : p r.event) :
    (scan.materialise cfg stream after r).Holds p where
  retained := by
    intro e he
    rcases mem_append.mp ((keepLast_suffix ..).subset he) with he | he
    · exact h.retained e he
    · rw [mem_singleton.mp he]
      exact hr
  replay := by
    intro e he
    rw [DiskScan.materialise] at he
    split_ifs at he
    · rcases mem_append.mp he with he | he
      · exact h.replay e he
      · rw [mem_singleton.mp he]
        exact hr
    · exact h.replay e he

theorem DiskScan.Holds.scanRecord (h : scan.Holds p) (after : Option ℕ) (skip : ℕ)
    (hr : p r.event) :
    (UiLedger.scanRecord cfg stream after skip scan r).Holds p := by
  rw [UiLedger.scanRecord]
  split_ifs
  · exact ⟨h.retained, h.replay⟩
  · exact ⟨h.retained, h.replay⟩
  · have hnoted : ({ scan.noteOldest r.seq with headSeq := max scan.headSeq r.seq } :
        DiskScan Body).Holds p := ⟨h.retained, h.replay⟩
    exact hnoted.materialise after hr

theorem SessionSnapshotFile.holds_seedSnapshot {snapshot : SessionSnapshotFile Body}
    (h : ∀ r ∈ snapshot.entries, p r.event) (after : Option ℕ) (shortcut : Bool) :
    (seedSnapshot cfg stream after snapshot shortcut).Holds p := by
  have hempty : ({ empty with headSeq := snapshot.headSeq } : DiskScan Body).Holds p :=
    ⟨by simp [empty], by simp [empty]⟩
  cases shortcut with
  | false =>
    rw [seedSnapshot_false]
    exact hempty
  | true =>
    refine foldlRecOn _ _ hempty fun scan hscan r hr => ?_
    have hnoted : (scan.noteOldest r.seq).Holds p := ⟨hscan.retained, hscan.replay⟩
    exact hnoted.materialise after (h r hr)

/-- **What is read back** satisfies `p`. -/
theorem Ledger.Holds.read (h : L.Holds p) {after : Option ℕ} {hydrate : Bool}
    {snapshot : DiskSessionSnapshot Body}
    (hread : readSessionDiskSnapshot cfg stream after hydrate L.dir = some snapshot) :
    snapshot.toDiskScan.Holds p := by
  cases hdir : L.dir with
  | none => rw [hdir] at hread; cases hread
  | some dir =>
    have hlogs := (h.dir dir hdir).logs
    have hscan : ∀ skip (seeded : DiskScan Body), seeded.Holds p →
        (dir.records.foldl (UiLedger.scanRecord cfg stream after skip) seeded).Holds p :=
      fun skip _ hseeded =>
        foldlRecOn _ _ hseeded fun _ hs r hr => hs.scanRecord after skip (hlogs r hr)
    have hempty : (empty : DiskScan Body).Holds p :=
      ⟨by simp [empty], by simp [empty]⟩
    rw [hdir, readSessionDiskSnapshot] at hread
    split at hread
    · cases hread
    · obtain rfl := Option.some.inj hread
      split
      next file hfile =>
        exact hscan _ _ (SessionSnapshotFile.holds_seedSnapshot
          ((h.dir dir hdir).snapshot file (mem_of_readSessionSnapshot hfile)) after _)
      · exact hscan 0 _ hempty
      · exact hscan 0 _ hempty

/-! ## Operations -/

/-- From `L` to `L'` only events satisfying `q` are appended, and `p` is kept of what is held. -/
structure Extends (p q : UiProtocolLedgerEvent Body → Prop) (L L' : Ledger Body) : Prop where
  holds : L.Holds p → L'.Holds p
  grows : ∃ events, L'.published = L.published ++ events ∧ ∀ e ∈ events, q e.event

theorem Extends.refl (L : Ledger Body) : Extends p q L L := ⟨id, [], by simp, by simp⟩

theorem Extends.trans {L'' : Ledger Body} (h : Extends p q L L') (h' : Extends p q L' L'') :
    Extends p q L L'' := by
  refine ⟨h'.holds ∘ h.holds, ?_⟩
  obtain ⟨events, hevents, hq⟩ := h.grows
  obtain ⟨events', hevents', hq'⟩ := h'.grows
  refine ⟨events ++ events', by rw [hevents', hevents, append_assoc], fun e he => ?_⟩
  exact (mem_append.mp he).elim (hq e) (hq' e)

theorem Extends.of_holds (h : L.Holds p → L'.Holds p) (hpub : L'.published = L.published) :
    Extends p q L L' :=
  ⟨h, [], by simp [hpub], by simp⟩

/-- An append of an event that satisfies `q` however it is stamped. -/
def AppendInput.Meets (q : UiProtocolLedgerEvent Body → Prop) (input : AppendInput Body) : Prop :=
  ∀ cursor, q (input.event.withCursor cursor)

section

variable {L : Ledger Body} {logs : List (LogFile Body)}

theorem records_appendLine {path lineBytes : ℕ} {r : LedgerDiskRecord Body}
    {r' : LedgerDiskRecord Body} (h : r' ∈ (appendLine path lineBytes r logs).flatMap (·.records)) :
    r' = r ∨ r' ∈ logs.flatMap (·.records) := by
  induction logs with
  | nil => simpa [appendLine] using h
  | cons file rest ih =>
    rw [appendLine] at h
    split_ifs at h
    · simp only [flatMap_cons, mem_append, mem_singleton] at h ⊢
      tauto
    · simp only [flatMap_cons, mem_append] at h ⊢
      rcases h with h | h
      · exact .inr (.inl h)
      · exact (ih h).imp_right .inr

variable {session : SessionLedger Body}

theorem openActiveLog_logs_subset {clock : ℕ} :
    (openActiveLog cfg clock session logs).logs ⊆ logs := by
  rw [openActiveLog]
  split
  · exact List.Subset.refl _
  · split_ifs
    · exact drop_subset ..
    · exact List.Subset.refl _

theorem extends_appendTo (hpq : ∀ ev, q ev → p ev)
    (hring : L.Holds p → ∀ e ∈ session.entries, p e.event) {input : AppendInput Body}
    (hinput : input.Meets q) : Extends p q L (appendTo cfg stream session input L) := by
  have hevent := hinput ⟨stream, saturatingAddU64 session.nextSeq 1⟩
  refine ⟨fun h => ?_, [input.ledgered stream (saturatingAddU64 session.nextSeq 1)], rfl, ?_⟩
  · have hentries : ∀ e ∈ keepLast cfg.retainedPerSession (session.entries ++
        [(input.ledgered stream (saturatingAddU64 session.nextSeq 1)).entry]), p e.event := by
      intro e he
      rcases mem_append.mp ((keepLast_suffix ..).subset he) with he | he
      · exact hring h e he
      · rw [mem_singleton.mp he]
        exact hpq _ hevent
    refine ⟨?_, by rintro _ ⟨⟩; exact hentries⟩
    rintro _ ⟨⟩
    have hlogs : ∀ r ∈ (appendLine (openActiveLog cfg L.clock session L.directory.logs).path
        input.lineBytes (input.ledgered stream (saturatingAddU64 session.nextSeq 1)).record
        (openActiveLog cfg L.clock session L.directory.logs).logs).flatMap (·.records),
        p r.event := by
      intro r hr
      rcases records_appendLine hr with rfl | hr
      · exact hpq _ hevent
      · obtain ⟨file, hfile, hr⟩ := mem_flatMap.mp hr
        exact h.directory.logs r
          (mem_flatMap.mpr ⟨file, openActiveLog_logs_subset hfile, hr⟩)
    -- A snapshot that is written holds the records of the ring.
    split_ifs
    · refine ⟨hlogs, ?_⟩
      rintro _ ⟨⟩ r hr
      obtain ⟨e, he, rfl⟩ := mem_map.mp hr
      exact hentries e he
    · exact ⟨hlogs, h.directory.snapshot⟩
  · intro e he
    rw [mem_singleton.mp he]
    exact hevent

theorem Ledger.Holds.appendBase (h : L.Holds p) {preload : Option (DiskSessionSnapshot Body)}
    (hpreload : ∀ snapshot ∈ preload, snapshot.toDiskScan.Holds p) :
    ∀ e ∈ (appendBase preload L).entries, p e.event := by
  rw [UiLedger.appendBase]
  cases hsession : L.session with
  | some session => exact h.ring session hsession
  | none =>
    cases preload with
    | none => simp [SessionLedger.new]
    | some snapshot => exact (hpreload snapshot rfl).retained

end

/-- The sweep appends only events satisfying `q`. -/
def Touch.Meets (q : UiProtocolLedgerEvent Body → Prop) (touch : Touch Body) : Prop :=
  ∀ input ∈ touch.swept, input.Meets q

/-- An operation appends only events satisfying `q`. -/
def Op.Appends (q : UiProtocolLedgerEvent Body → Prop) : Op Body → Prop
  | .append touch input => touch.Meets q ∧ input.Meets q
  | .replayAfterWithHead touch _ => touch.Meets q
  | .snapshotWithCursor touch _ _ => touch.Meets q
  | .evict => True
  | .restart => True

section

variable {L : Ledger Body} {touch : Touch Body} {snapshot : DiskSessionSnapshot Body}

theorem Ledger.Holds.hydrate (h : L.Holds p) {after : Option ℕ} {fromBeginning : Bool}
    (hread : readSessionDiskSnapshot cfg stream after fromBeginning L.dir = some snapshot) :
    ({ L with session := some (hydrateSessionFromSnapshot snapshot) } : Ledger Body).Holds p where
  dir := h.dir
  ring := by
    rintro _ ⟨⟩
    exact (h.read hread).retained

theorem Ledger.Holds.loadSession (h : L.Holds p)
    (hread : readSessionDiskSnapshot cfg stream none false L.dir = some snapshot) :
    (loadSession cfg touch snapshot L).Holds p := by
  have hretained := (h.read hread).retained
  refine ⟨?_, by rintro _ ⟨⟩; exact hretained⟩
  intro dir hdir
  simp only [UiLedger.loadSession] at hdir
  split_ifs at hdir
  · obtain ⟨dir', hdir', rfl⟩ := Option.map_eq_some_iff.mp hdir
    refine ⟨(h.dir dir' hdir').logs, ?_⟩
    rintro _ ⟨⟩ r hr
    obtain ⟨e, he, rfl⟩ := mem_map.mp hr
    exact hretained e he
  · exact h.dir dir hdir

theorem extends_replayAfterFromDisk (after : UiCursor) :
    Extends p q L (replayAfterFromDiskWithHead cfg stream after L).2 := by
  rw [replayAfterFromDiskWithHead]
  split
  · exact .refl L
  · split
    · exact .refl L
    next hread =>
      repeat' split
      all_goals first
        | exact .refl L
        | exact .of_holds (fun h => h.hydrate hread) rfl

theorem extends_hydrateForSnapshot (afterSeq : ℕ) :
    Extends p q L (hydrateForSnapshot cfg stream afterSeq L) := by
  rw [hydrateForSnapshot]
  split_ifs
  · cases hread : readSessionDiskSnapshot cfg stream (some afterSeq) true L.dir with
    | none => exact .refl L
    | some snapshot =>
      rw [Option.elim_some, hydrateRing]
      split_ifs
      · exact .of_holds (fun h => h.hydrate hread) rfl
      · refine .of_holds (fun h => ⟨h.dir, ?_⟩) rfl
        rintro _ ⟨⟩
        cases hsession : L.session with
        | none => simp [SessionLedger.new]
        | some session => exact h.ring session hsession
  · exact .refl L

variable (hpq : ∀ ev, q ev → p ev)
include hpq

theorem extends_sweep {swept : List (AppendInput Body)}
    (hswept : ∀ input ∈ swept, input.Meets q) :
    Extends p q L (runSteps (sweepStep cfg stream) L swept) := by
  induction swept generalizing L with
  | nil => exact .refl L
  | cons input swept ih =>
    have hstep : Extends p q L (sweepStep cfg stream L input) :=
      extends_appendTo hpq (fun h => h.appendBase (by simp)) (hswept input mem_cons_self)
    exact hstep.trans (ih fun i hi => hswept i (mem_cons_of_mem _ hi))

section

variable (htouch : touch.Meets q)
include htouch

theorem extends_finishLoad {entry : SessionIndexEntry}
    (hread : readSessionDiskSnapshot cfg stream none false L.dir = some snapshot) :
    Extends p q L (finishLoad cfg stream touch entry snapshot L) := by
  have hload : Extends p q L (loadSession cfg touch snapshot L) :=
    .of_holds (fun h => h.loadSession hread) rfl
  have hindex : ∀ (M : Ledger Body) index, Extends p q M { M with index := index } :=
    fun M index => .of_holds (fun h => ⟨h.dir, h.ring⟩) rfl
  rw [finishLoad]
  cases entry.reconciled with
  | true => exact hload.trans (hindex ..)
  | false => exact (hload.trans (extends_sweep hpq htouch)).trans (hindex ..)

variable (cfg stream L) in
theorem extends_ensureSessionLoaded :
    Extends p q L (ensureSessionLoaded cfg stream touch L).2 := by
  rw [ensureSessionLoaded]
  split
  · exact .refl L
  · exact .refl L
  · split
    · exact .refl L
    · split
      · exact .refl L
      next hread =>
        split_ifs
        · exact .of_holds (fun h => ⟨h.dir, h.ring⟩) rfl
        · exact .refl L
        · exact extends_finishLoad hpq htouch hread

variable (cfg stream L) in
/-- A snapshot that is read because the session is absent is read from what the step leaves. -/
theorem extends_snapshotIfSessionAbsent :
    Extends p q L (snapshotIfSessionAbsent cfg stream touch L).2 ∧
      ∀ preload, (snapshotIfSessionAbsent cfg stream touch L).1 = .ok preload →
        (snapshotIfSessionAbsent cfg stream touch L).2.Holds p →
        ∀ snapshot ∈ preload, snapshot.toDiskScan.Holds p := by
  have hload := extends_ensureSessionLoaded cfg stream L hpq htouch
  rw [snapshotIfSessionAbsent]
  generalize ensureSessionLoaded cfg stream touch L = loaded at hload ⊢
  rcases loaded with ⟨_ | _ | _, M⟩
  · exact ⟨hload, nofun⟩
  · dsimp only
    split_ifs
    · exact ⟨hload, by rintro _ ⟨⟩ _ _ ⟨⟩⟩
    · split
      · exact ⟨hload, by rintro _ ⟨⟩ _ _ ⟨⟩⟩
      next hread =>
        split_ifs
        · exact ⟨hload.trans (.of_holds (fun h => ⟨h.dir, h.ring⟩) rfl), nofun⟩
        · refine ⟨hload, ?_⟩
          rintro _ ⟨⟩ hM _ ⟨⟩
          exact hM.read hread
  · exact ⟨hload, by rintro _ ⟨⟩ _ _ ⟨⟩⟩

theorem extends_append {input : AppendInput Body}
    (hinput : input.Meets q) :
    Extends p q L (append cfg stream touch input L).2 := by
  obtain ⟨habsent, hpreload⟩ := extends_snapshotIfSessionAbsent cfg stream L hpq htouch
  rw [append]
  generalize snapshotIfSessionAbsent cfg stream touch L = absent at habsent hpreload ⊢
  rcases absent with ⟨_ | preload, M⟩
  · exact habsent
  · exact habsent.trans
      (extends_appendTo hpq (fun h => h.appendBase (hpreload preload rfl h)) hinput)

end

/-- **Every operation** extends the session by what it appends. -/
theorem extends_step {op : Op Body} (hop : op.Appends q) :
    Extends p q L (step cfg stream L op) := by
  cases op with
  | append => exact extends_append hpq hop.1 hop.2
  | replayAfterWithHead touch =>
    have hload := extends_ensureSessionLoaded cfg stream L hpq hop
    rw [step, replayAfterWithHead]
    generalize ensureSessionLoaded cfg stream touch L = loaded at hload ⊢
    obtain ⟨result, M⟩ := loaded
    cases result with
    | error => exact hload
    | ok =>
      dsimp only
      repeat' split
      all_goals first
        | exact hload
        | exact hload.trans (extends_replayAfterFromDisk _)
  | snapshotWithCursor touch =>
    have hload := extends_ensureSessionLoaded cfg stream L hpq hop
    rw [step, snapshotWithCursor]
    split_ifs
    · exact .refl L
    · generalize ensureSessionLoaded cfg stream touch L = loaded at hload ⊢
      obtain ⟨result, M⟩ := loaded
      cases result with
      | error => exact hload
      | ok => exact hload.trans (extends_hydrateForSnapshot _)
  | evict | restart => exact .of_holds (fun h => ⟨h.dir, nofun⟩) rfl

end

end Octos.UiLedger
