import Octos.UiLedger.Ledger

/-!
# Coherence of ring, snapshot and logs

Everything the ledger keeps of a session is a piece of the list of events appended so far. The logs
are a tail of it, and so is the ring as long as the logs reach back to what the snapshot file holds;
the snapshot's entries are a tail of what had been appended at its head.

The reach of the logs is a hypothesis `joins` of the invariant: the part of it that does not need
the reach (numbers, heads, the active log) holds without.

## Main results

* `Coherent.read`: what a read from disk shows
* `Coherent.appendTo`: an append keeps the invariant
-/

namespace Octos.UiLedger

open List LedgeredUiProtocolEvent UiLedger.Ledger

variable {Body : Type}

/-! ## The events appended so far -/

/-- The events appended so far carry the cursors 1, 2, 3, … of the stream, and are recorded under
them. -/
structure History (stream : String) (H : List (LedgeredUiProtocolEvent Body)) : Prop where
  numbered : Numbered (fun e => e.cursor.seq) H
  stamped : ∀ e ∈ H, e.cursor.stream = stream ∧ e.event.cursorSeq e.cursor.seq = e.cursor.seq

/-- An appended event as a replay returns it: the tag of the connection that sent it is gone. -/
def LedgeredUiProtocolEvent.untagged (e : LedgeredUiProtocolEvent Body) :
    LedgeredUiProtocolEvent Body :=
  { e with fromConnection := none }

namespace History

variable {stream : String} {H : List (LedgeredUiProtocolEvent Body)}

theorem nil : History stream ([] : List (LedgeredUiProtocolEvent Body)) where
  numbered := numbered_nil
  stamped := by simp

variable (h : History stream H)
include h

theorem concat (input : AppendInput Body) :
    History stream (H ++ [input.ledgered stream (H.length + 1)]) where
  numbered := h.numbered.concat rfl
  stamped := by
    intro e he
    rcases mem_append.mp he with he | he
    · exact h.stamped e he
    · rw [mem_singleton.mp he]
      exact ⟨rfl, cursorSeq_withCursor ⟨stream, H.length + 1⟩ input.event⟩

theorem numbered_entries : Numbered (·.seq) (H.map (·.entry)) :=
  numbered_map.mpr h.numbered

theorem numbered_records : Numbered (·.seq) (H.map (·.record)) := by
  rw [numbered_map, Numbered, ← h.numbered]
  exact map_congr_left fun e he => (h.stamped e he).2

theorem map_record_entry : (H.map (·.record)).map (·.entry) = H.map (·.entry) := by
  rw [map_map]
  refine map_congr_left fun e he => ?_
  simp [record, LedgerDiskRecord.entry, entry, (h.stamped e he).2]

theorem map_entry_record : (H.map (·.entry)).map (·.record) = H.map (·.record) := by
  rw [map_map]
  refine map_congr_left fun e he => ?_
  simp [record, LedgerEntry.record, entry, (h.stamped e he).2]

theorem map_entry_ledgered : (H.map (·.entry)).map (·.ledgered stream) = H.map (·.untagged) := by
  rw [map_map]
  refine map_congr_left fun e he => ?_
  simp [LedgerEntry.ledgered, entry, untagged, ← (h.stamped e he).1]

end History

/-! ## The invariant -/

/-- The directory keeps a tail of the events in its logs, whose names increase up to the clock, and
at most some of them in its snapshot file. -/
structure DirKept (H : List (LedgeredUiProtocolEvent Body)) (clock : ℕ) (dir : SessionDir Body) :
    Prop where
  logs : dir.records <:+ H.map (·.record)
  names : (dir.logs.map (·.name)).Pairwise (· < ·)
  fresh : ∀ file ∈ dir.logs, file.name < clock
  snapshot : ∀ snapshot ∈ dir.snapshot,
    snapshot.headSeq ≤ H.length ∧ snapshot.entries ⊆ H.map (·.record)

/-- The snapshot file holds a tail of what had been appended at its head, and the logs reach back to
that head when it holds anything. -/
structure DirJoined (H : List (LedgeredUiProtocolEvent Body)) (dir : SessionDir Body) : Prop where
  snapshot : ∀ snapshot ∈ dir.snapshot, snapshot.version = sessionSnapshotVersion ∧
    snapshot.entries <:+ (H.map (·.record)).take snapshot.headSeq
  reach : ∀ snapshot ∈ dir.snapshot, snapshot.entries ≠ [] →
    H.length ≤ snapshot.headSeq + dir.records.length

/-- A session in memory stands at the last event and writes to the last log. -/
structure SessionKept (H : List (LedgeredUiProtocolEvent Body)) (dir : SessionDir Body)
    (session : SessionLedger Body) : Prop where
  next : session.nextSeq = H.length
  entries : session.entries ⊆ H.map (·.entry)
  active : session.activeLogPath = dir.logs.getLast?.map (·.name)

/-- **The invariant of a session.** With `joins`, the logs reach back to the snapshot and the ring
is a tail of the events. -/
structure Coherent (joins : Prop) (stream : String) (L : Ledger Body) : Prop where
  history : History stream L.published
  dir : DirKept L.published L.clock L.directory
  written : ∀ dir ∈ L.dir, dir.records ≠ []
  empty : L.dir = none → L.published = []
  session : ∀ session ∈ L.session, SessionKept L.published L.directory session
  index : ∀ entry ∈ L.index, entry.failed = none
  joined : joins → DirJoined L.published L.directory
  ring : joins → ∀ session ∈ L.session, session.entries <:+ L.published.map (·.entry)

theorem coherent_start (joins : Prop) (stream : String) :
    Coherent joins stream (start : Ledger Body) where
  history := .nil
  dir := ⟨suffix_refl _, .nil, by simp [directory, start], by simp [directory, start]⟩
  written := by simp [start]
  empty := fun _ => rfl
  session := by simp [start]
  index := by simp [start]
  joined := fun _ => ⟨by simp [directory, start], by simp [directory, start]⟩
  ring := by simp [start]

/-! ## Reading back -/

/-- A read from disk shows the records `taken`: events of the session that end at its head, and a
tail of all of them when the logs reach back to the snapshot. -/
structure ReadBack (joins : Prop) (cfg : LedgerConfig) (stream : String) (after : Option ℕ)
    (L : Ledger Body) (snapshot : DiskSessionSnapshot Body) (taken : List (LedgerDiskRecord Body)) :
    Prop where
  shows : snapshot.toDiskScan.Shows cfg stream after taken L.published.length
  nonempty : taken ≠ []
  subset : taken ⊆ L.published.map (·.record)
  active : some snapshot.activeLogPath = L.directory.logs.getLast?.map (·.name)
  bytes : some snapshot.activeLogBytes = L.directory.logs.getLast?.map (·.bytes)
  suffix : joins → taken <:+ L.published.map (·.record)

section

variable {joins : Prop} {cfg : LedgerConfig} {stream : String} {L : Ledger Body}
  {after : Option ℕ}

theorem directory_of_mem {dir : SessionDir Body} (hdir : dir ∈ L.dir) : L.directory = dir := by
  rw [directory, hdir, Option.getD_some]

variable (h : Coherent joins stream L)
include h

theorem Coherent.logged {r : LedgerDiskRecord Body}
    (hr : r ∈ L.directory.records) : r.v = ledgerDiskVersion ∧ 0 < r.seq := by
  have hmem := h.dir.logs.subset hr
  refine ⟨?_, (h.history.numbered_records.mem_le hmem).1⟩
  obtain ⟨e, -, rfl⟩ := mem_map.mp hmem
  rfl

theorem Coherent.scan_logs (hne : L.directory.records ≠ []) {head : ℕ}
    (hhead : head ≤ L.published.length) :
    (L.directory.records.foldl (scanRecord cfg stream after 0)
      { DiskScan.empty with headSeq := head }).Shows cfg stream after L.directory.records
      L.published.length := by
  have hscan :=
    (DiskScan.shows_empty cfg stream after head).foldl_scanRecord (fun r hr => (h.logged hr).1)
    (fun _ r hr => (h.logged hr).2)
  have hall : L.directory.records.filter (fun r => 0 < r.seq) = L.directory.records :=
    filter_eq_self.mpr fun r hr => by simpa using (h.logged hr).2
  have hstart : head ≤ (L.published.map (·.record)).length := by rwa [length_map]
  have hmax := h.history.numbered_records.foldl_max_suffix h.dir.logs hne hstart
  rwa [hall, nil_append, hmax, length_map] at hscan

theorem Coherent.scan_tail (hne : L.directory.records ≠ [])
    {file : SessionSnapshotFile Body} (hfile : file ∈ L.directory.snapshot)
    (hentries : file.entries ≠ []) :
    (L.directory.records.foldl (scanRecord cfg stream after file.headSeq)
      (seedSnapshot cfg stream after file true)).Shows cfg stream after
      (file.entries ++ L.directory.records.filter fun r => file.headSeq < r.seq)
      L.published.length := by
  have hscan := (DiskScan.shows_seedSnapshot cfg stream after file).foldl_scanRecord
    (fun r hr => (h.logged hr).1)
    (fun hnil r (_ : r ∈ L.directory.records) => absurd hnil hentries : _ →
      ∀ r ∈ _, file.headSeq < r.seq)
  have hstart : file.headSeq ≤ (L.published.map (·.record)).length := by
    rw [length_map]
    exact (h.dir.snapshot file hfile).1
  have hmax := h.history.numbered_records.foldl_max_suffix h.dir.logs hne hstart
  rwa [hmax, length_map] at hscan

variable (cfg after) in
/-- **A read from disk** shows events of the session that end at its head. -/
theorem Coherent.read {dir : SessionDir Body} (hdir : dir ∈ L.dir) (hydrate : Bool) :
    ∃ snapshot taken, readSessionDiskSnapshot cfg stream after hydrate L.dir = some snapshot ∧
      ReadBack joins cfg stream after L snapshot taken := by
  have hne := h.written dir hdir
  obtain rfl := directory_of_mem hdir
  obtain ⟨active, hactive⟩ : ∃ active, L.directory.logs.getLast? = some active := by
    refine Option.ne_none_iff_exists'.mp fun hnone => hne ?_
    rw [SessionDir.records, getLast?_eq_none_iff.mp hnone, flatMap_nil]
  -- the logs alone, from whatever head the snapshot file gives
  have hlogs : ∀ head ≤ L.published.length, ∃ snapshot taken,
      some { L.directory.records.foldl (scanRecord cfg stream after 0)
          { DiskScan.empty with headSeq := head } with
        activeLogPath := active.name, activeLogBytes := active.bytes } = some snapshot ∧
      ReadBack joins cfg stream after L snapshot taken := fun head hhead =>
    ⟨_, L.directory.records, rfl, h.scan_logs hne hhead, hne, h.dir.logs.subset,
      by rw [hactive]; rfl, by rw [hactive]; rfl, fun _ => h.dir.logs⟩
  rw [hdir, readSessionDiskSnapshot, hactive]
  cases hread : readSessionSnapshot L.directory with
  | error e => exact hlogs 0 (Nat.zero_le _)
  | ok file =>
    cases file with
    | none => exact hlogs 0 (Nat.zero_le _)
    | some file =>
      have hfile := mem_of_readSessionSnapshot hread
      dsimp only
      cases hok : shortcutOk after hydrate file with
      | false =>
        rw [seedSnapshot_false]
        exact hlogs file.headSeq (h.dir.snapshot file hfile).1
      | true =>
        have hentries := ne_nil_of_shortcutOk hok
        refine ⟨_, _, rfl, h.scan_tail hne hfile hentries, ?_, ?_, by rw [hactive]; rfl,
          by rw [hactive]; rfl, ?_⟩
        · exact fun hnil => hentries (append_eq_nil_iff.mp hnil).1
        · exact append_subset.mpr ⟨(h.dir.snapshot file hfile).2,
            fun r hr => h.dir.logs.subset (mem_of_mem_filter hr)⟩
        · intro hj
          have hreach := (h.joined hj).reach file hfile hentries
          exact h.history.numbered_records.stitch ((h.joined hj).snapshot file hfile).2 h.dir.logs
            (by rwa [length_map])

theorem Coherent.read_eq_some {hydrate : Bool} {snapshot : DiskSessionSnapshot Body}
    (hread : readSessionDiskSnapshot cfg stream after hydrate L.dir = some snapshot) :
    ∃ taken, ReadBack joins cfg stream after L snapshot taken := by
  cases hdir : L.dir with
  | none =>
    rw [hdir] at hread
    cases hread
  | some dir =>
    obtain ⟨found, taken, hfound, hback⟩ := h.read cfg after hdir hydrate
    rw [hread, Option.some.injEq] at hfound
    exact ⟨taken, hfound ▸ hback⟩

end

/-! ## Sessions in memory -/

section

variable {joins : Prop} {cfg : LedgerConfig} {stream : String} {L : Ledger Body}
  {after : Option ℕ} {snapshot : DiskSessionSnapshot Body} {session : SessionLedger Body}

section

variable (h : Coherent joins stream L)
include h

variable {taken : List (LedgerDiskRecord Body)}

theorem ReadBack.sessionKept (hback : ReadBack joins cfg stream after L snapshot taken) :
    SessionKept L.published L.directory (hydrateSessionFromSnapshot snapshot) where
  next := hback.shows.head
  entries := by
    rw [hydrateSessionFromSnapshot, hback.shows.retained, ← h.history.map_record_entry]
    exact map_subset _ fun r hr => hback.subset ((keepLast_suffix ..).subset hr)
  active := hback.active

theorem ReadBack.ring (hback : ReadBack joins cfg stream after L snapshot taken) (hj : joins) :
    (hydrateSessionFromSnapshot snapshot).entries <:+ L.published.map (·.entry) := by
  rw [hydrateSessionFromSnapshot, hback.shows.retained, ← h.history.map_record_entry]
  exact ((keepLast_suffix ..).trans (hback.suffix hj)).map _

theorem Coherent.withSession (hs : SessionKept L.published L.directory session)
    (hring : joins → session.entries <:+ L.published.map (·.entry)) :
    Coherent joins stream { L with session := some session } :=
  { h with
    session := by
      rintro _ ⟨⟩
      exact hs
    ring := by
      rintro hj _ ⟨⟩
      exact hring hj }

theorem Coherent.hydrate {fromBeginning : Bool}
    (hread : readSessionDiskSnapshot cfg stream after fromBeginning L.dir = some snapshot) :
    Coherent joins stream { L with session := some (hydrateSessionFromSnapshot snapshot) } := by
  obtain ⟨taken, hback⟩ := h.read_eq_some hread
  exact h.withSession (hback.sessionKept h) (hback.ring h)

theorem Coherent.dropSession {index : Option SessionIndexEntry}
    (hindex : ∀ entry ∈ index, entry.failed = none) :
    Coherent joins stream { L with session := none, index := index } :=
  { h with
    session := nofun
    index := hindex
    ring := by rintro _ _ ⟨⟩ }

theorem Coherent.withIndex {entry : SessionIndexEntry} (hentry : entry.failed = none) :
    Coherent joins stream { L with index := some entry } :=
  { h with
    index := by
      rintro _ ⟨⟩
      exact hentry }

theorem Coherent.sessionKept_new (hdir : L.dir = none) :
    SessionKept L.published L.directory SessionLedger.new where
  next := by rw [h.empty hdir]; rfl
  entries := nil_subset _
  active := by rw [directory, hdir]; rfl

end

variable {H : List (LedgeredUiProtocolEvent Body)} {dir : SessionDir Body}

theorem SessionKept.snapshot_kept (hH : History stream H) {clock : ℕ}
    (hdir : DirKept H clock dir) (hs : SessionKept H dir session) :
    DirKept H clock (writeSessionSnapshot session dir) := by
  refine { hdir with snapshot := ?_ }
  rintro _ ⟨⟩
  refine ⟨hs.next.le, ?_⟩
  rw [← hH.map_entry_record]
  exact map_subset _ hs.entries

theorem SessionKept.snapshot_joined (hH : History stream H)
    (hs : SessionKept H dir session) (hring : session.entries <:+ H.map (·.entry)) :
    DirJoined H (writeSessionSnapshot session dir) where
  snapshot := by
    rintro _ ⟨⟩
    refine ⟨rfl, ?_⟩
    rw [take_of_length_le (by rw [length_map, hs.next]), ← hH.map_entry_record]
    exact hring.map _
  reach := by
    rintro _ ⟨⟩ -
    rw [hs.next]
    exact Nat.le_add_right ..

end

/-! ## Writing the logs -/

section

variable {path lineBytes clock : ℕ} {r : LedgerDiskRecord Body} {logs : List (LogFile Body)}

theorem appendLine_fresh (h : ∀ file ∈ logs, file.name ≠ path) :
    appendLine path lineBytes r logs = logs ++ [⟨path, lineBytes, [r]⟩] := by
  induction logs with
  | nil => rfl
  | cons file rest ih =>
    rw [appendLine, if_neg (h file mem_cons_self),
      ih fun f hf => h f (mem_cons_of_mem _ hf), cons_append]

variable {last : LogFile Body}

theorem appendLine_last (h : ∀ file ∈ logs, file.name ≠ last.name) :
    appendLine last.name lineBytes r (logs ++ [last]) =
      logs ++ [⟨last.name, last.bytes + lineBytes, last.records ++ [r]⟩] := by
  induction logs with
  | nil => rw [nil_append, appendLine, if_pos rfl, nil_append]
  | cons file rest ih =>
    rw [cons_append, appendLine, if_neg (h file mem_cons_self),
      ih fun f hf => h f (mem_cons_of_mem _ hf), cons_append]

/-- The logs after one more record: their names still increase up to the clock, the record is the
last one, and its file is the last file. -/
structure LogsWritten (logs written : List (LogFile Body)) (path clock : ℕ)
    (r : LedgerDiskRecord Body) : Prop where
  records : written.flatMap (·.records) = logs.flatMap (·.records) ++ [r]
  names : (written.map (·.name)).Pairwise (· < ·)
  fresh : ∀ file ∈ written, file.name < clock
  last : written.getLast?.map (·.name) = some path

theorem logsWritten_fresh (hnames : (logs.map (·.name)).Pairwise (· < ·))
    (hfresh : ∀ file ∈ logs, file.name < clock) :
    LogsWritten logs (appendLine clock lineBytes r logs) clock (clock + 1) r := by
  rw [appendLine_fresh fun file hfile => (hfresh file hfile).ne]
  refine ⟨by simp, ?_, ?_, by simp⟩
  · rw [map_append, pairwise_append]
    refine ⟨hnames, pairwise_singleton .., ?_⟩
    intro a ha b hb
    obtain ⟨file, hfile, rfl⟩ := mem_map.mp ha
    obtain rfl := mem_singleton.mp hb
    exact hfresh file hfile
  · intro file hfile
    rcases mem_append.mp hfile with hfile | hfile
    · exact (hfresh file hfile).trans (Nat.lt_succ_self _)
    · rw [mem_singleton.mp hfile]
      exact Nat.lt_succ_self _

theorem logsWritten_last (hnames : ((logs ++ [last]).map (·.name)).Pairwise (· < ·))
    (hfresh : ∀ file ∈ logs ++ [last], file.name < clock) :
    LogsWritten (logs ++ [last]) (appendLine last.name lineBytes r (logs ++ [last])) last.name clock
      r := by
  have hbefore : ∀ file ∈ logs, file.name ≠ last.name := by
    intro file hfile
    rw [map_append, pairwise_append] at hnames
    exact (hnames.2.2 _ (mem_map_of_mem hfile) _ (by simp)).ne
  rw [appendLine_last hbefore]
  refine ⟨by simp, by simpa using hnames, ?_, by simp⟩
  intro file hfile
  rcases mem_append.mp hfile with hfile | hfile
  · exact hfresh file (mem_append_left _ hfile)
  · rw [mem_singleton.mp hfile]
    exact hfresh last (by simp)

end

/-! ## Appending -/

section

variable {joins : Prop} (cfg : LedgerConfig) {stream : String} {L : Ledger Body}
  {H : List (LedgeredUiProtocolEvent Body)} {dir : SessionDir Body} {session : SessionLedger Body}
  {clock : ℕ}

/-- Whether the next append to the session rotates its log. -/
def rotates (session : SessionLedger Body) : Bool :=
  session.activeLogPath.isSome && decide (cfg.rotateBytes ≤ session.activeLogBytes)

/-- The logs that a rotation trims hold no record newer than the head of the snapshot file, unless
that file has no entries or is missing. -/
def trimmedCovered (dir : SessionDir Body) : Bool :=
  dir.snapshot.all fun snapshot => snapshot.entries.isEmpty ||
    (dir.logs.take (trimCount cfg dir.logs)).all fun file =>
      file.records.all fun r => r.seq ≤ snapshot.headSeq

theorem SessionKept.logsWritten (hdir : DirKept H clock dir) (hs : SessionKept H dir session)
    (lineBytes : ℕ) (r : LedgerDiskRecord Body) :
    ∃ n, (n = 0 ∨ rotates cfg session = true ∧ n = trimCount cfg dir.logs) ∧
      LogsWritten (dir.logs.drop n)
        (appendLine (openActiveLog cfg clock session dir.logs).path lineBytes r
          (openActiveLog cfg clock session dir.logs).logs)
        (openActiveLog cfg clock session dir.logs).path
        (openActiveLog cfg clock session dir.logs).clock r := by
  have hactive := hs.active
  rw [openActiveLog]
  cases hpath : session.activeLogPath with
  | none =>
    -- no active log means no logs at all
    refine ⟨0, .inl rfl, ?_⟩
    exact logsWritten_fresh hdir.names hdir.fresh
  | some path =>
    rw [hpath, eq_comm, Option.map_eq_some_iff] at hactive
    obtain ⟨last, hlast, rfl⟩ := hactive
    split_ifs with hfull
    · refine ⟨trimCount cfg dir.logs, .inr ⟨by simp [rotates, hpath, hfull], rfl⟩, ?_⟩
      refine logsWritten_fresh ?_ fun file hfile => hdir.fresh file (mem_of_mem_drop hfile)
      rw [List.map_drop]
      exact hdir.names.sublist (drop_sublist ..)
    · obtain ⟨front, hfront⟩ := getLast?_eq_some_iff.mp hlast
      have hnames := hdir.names
      have hfresh := hdir.fresh
      rw [hfront] at hnames hfresh ⊢
      exact ⟨0, .inl rfl, logsWritten_last hnames hfresh⟩

variable {cfg}

theorem DirKept.reach_drop (hH : History stream H) (hdir : DirKept H clock dir) {head n : ℕ}
    (hreach : H.length ≤ head + dir.records.length)
    (hcovered : ∀ file ∈ dir.logs.take n, ∀ r ∈ file.records, r.seq ≤ head) :
    H.length ≤ head + ((dir.logs.drop n).flatMap (·.records)).length := by
  have hsplit : dir.records =
      (dir.logs.take n).flatMap (·.records) ++ (dir.logs.drop n).flatMap (·.records) := by
    rw [← flatMap_append, take_append_drop]
    rfl
  have htrimmed : ((dir.logs.take n).flatMap (·.records)).filter (fun r => head < r.seq) = [] := by
    rw [filter_eq_nil_iff]
    intro r hr
    obtain ⟨file, hfile, hr⟩ := mem_flatMap.mp hr
    simpa using hcovered file hfile r hr
  -- the records after `head` are all in the logs that are left
  have hlater := hH.numbered_records.filter_suffix hdir.logs (by rwa [length_map])
  rw [hsplit, filter_append, htrimmed, nil_append] at hlater
  have hlen := congrArg List.length hlater
  rw [length_drop, length_map] at hlen
  have hle := length_filter_le (fun r => decide (head < r.seq))
    ((dir.logs.drop n).flatMap (·.records))
  omega

section

variable {e : LedgeredUiProtocolEvent Body} {n path clock' : ℕ} {written : List (LogFile Body)}

theorem DirKept.append (hdir : DirKept H clock dir)
    (hwritten : LogsWritten (dir.logs.drop n) written path clock' e.record) :
    DirKept (H ++ [e]) clock' { dir with logs := written } where
  logs := by
    rw [SessionDir.records, hwritten.records, map_append, map_singleton]
    obtain ⟨front, hfront⟩ := hdir.logs
    refine ⟨front ++ (dir.logs.take n).flatMap (·.records), ?_⟩
    rw [← hfront, ← append_assoc, append_assoc front, ← flatMap_append, take_append_drop]
    rfl
  names := hwritten.names
  fresh := hwritten.fresh
  snapshot := by
    intro snapshot hsnapshot
    obtain ⟨hhead, hentries⟩ := hdir.snapshot snapshot hsnapshot
    rw [length_append, map_append]
    exact ⟨hhead.trans (Nat.le_add_right ..), List.Subset.trans hentries (subset_append_left ..)⟩

theorem DirJoined.append (hH : History stream H) (hdir : DirKept H clock dir)
    (hjoined : DirJoined H dir)
    (hwritten : LogsWritten (dir.logs.drop n) written path clock' e.record)
    (hcovered : n = 0 ∨ n = trimCount cfg dir.logs ∧ trimmedCovered cfg dir = true) :
    DirJoined (H ++ [e]) { dir with logs := written } where
  snapshot := by
    intro snapshot hsnapshot
    obtain ⟨hversion, hentries⟩ := hjoined.snapshot snapshot hsnapshot
    refine ⟨hversion, ?_⟩
    rwa [map_append, take_append_of_le_length]
    rw [length_map]
    exact (hdir.snapshot snapshot hsnapshot).1
  reach := by
    intro snapshot hsnapshot hne
    have hreach := hjoined.reach snapshot hsnapshot hne
    have hleft : H.length ≤ snapshot.headSeq + ((dir.logs.drop n).flatMap (·.records)).length := by
      rcases hcovered with rfl | ⟨rfl, hcovered⟩
      · exact hreach
      · refine hdir.reach_drop hH hreach fun file hfile r hr => ?_
        change dir.snapshot = some snapshot at hsnapshot
        simp only [trimmedCovered, hsnapshot, Option.all_some, Bool.or_eq_true,
          List.isEmpty_iff, hne, false_or, all_eq_true, decide_eq_true_eq] at hcovered
        exact hcovered file hfile r hr
    rw [SessionDir.records, hwritten.records, length_append, length_append]
    simp only [length_singleton]
    omega

end

theorem Coherent.written_after (h : Coherent joins stream L) (hH : History stream H)
    (hdir : DirKept H clock dir) (hne : dir.records ≠ []) (hs : SessionKept H dir session)
    (hjoined : joins → DirJoined H dir) (hring : joins → session.entries <:+ H.map (·.entry)) :
    Coherent joins stream
      { L with clock := clock, dir := some dir, session := some session, published := H } where
  history := hH
  dir := hdir
  written := by
    rintro _ ⟨⟩
    exact hne
  empty := nofun
  session := by
    rintro _ ⟨⟩
    exact hs
  index := h.index
  joined := hjoined
  ring := by
    rintro hj _ ⟨⟩
    exact hring hj

/-- **An append keeps the invariant.** The sequence number must not be the greatest one, and a
rotation must not trim what the snapshot file does not hold. -/
theorem Coherent.appendTo (h : Coherent joins stream L)
    (hs : SessionKept L.published L.directory session)
    (hring : joins → session.entries <:+ L.published.map (·.entry))
    (hlt : L.published.length < u64Max)
    (hcovered : joins → rotates cfg session = true → trimmedCovered cfg L.directory = true)
    (input : AppendInput Body) : Coherent joins stream (appendTo cfg stream session input L) := by
  have hseq : saturatingAddU64 session.nextSeq 1 = L.published.length + 1 := by
    rw [saturatingAddU64, hs.next]
    exact min_eq_left hlt
  rw [UiLedger.appendTo, hseq]
  -- the new event, the logs it is written to and the session after it
  generalize he : input.ledgered stream (L.published.length + 1) = e
  have hH := h.history.concat input
  rw [he] at hH
  obtain ⟨n, hn, hwritten⟩ := hs.logsWritten cfg h.dir input.lineBytes e.record
  generalize openActiveLog cfg L.clock session L.directory.logs = active at hwritten ⊢
  have hdir := h.dir.append hwritten
  have hsession : SessionKept (L.published ++ [e])
      { L.directory with logs := appendLine active.path input.lineBytes e.record active.logs }
      { nextSeq := e.cursor.seq
        entries := keepLast cfg.retainedPerSession (session.entries ++ [e.entry])
        activeLogPath := some active.path
        activeLogBytes := saturatingAddU64 active.bytes input.lineBytes } := by
    refine ⟨?_, ?_, hwritten.last.symm⟩
    · rw [← he, length_append]
      rfl
    · rw [map_append, map_singleton]
      exact List.Subset.trans (keepLast_suffix ..).subset
        (append_subset.mpr ⟨subset_append_of_subset_left _ hs.entries, subset_append_right ..⟩)
  have hring' : joins → keepLast cfg.retainedPerSession (session.entries ++ [e.entry]) <:+
      (L.published ++ [e]).map (·.entry) := by
    intro hj
    obtain ⟨front, hfront⟩ := hring hj
    refine (keepLast_suffix ..).trans ⟨front, ?_⟩
    rw [map_append, map_singleton, ← hfront, append_assoc]
  have hjoined : joins → DirJoined (L.published ++ [e])
      { L.directory with logs := appendLine active.path input.lineBytes e.record active.logs } :=
    fun hj => (h.joined hj).append h.history h.dir hwritten
      (hn.imp_right fun ⟨hrot, htrim⟩ => ⟨htrim, hcovered hj hrot⟩)
  have hrecords :
      (appendLine active.path input.lineBytes e.record active.logs).flatMap (·.records) ≠
      [] := by
    rw [hwritten.records]
    simp
  -- with or without a snapshot written after it
  split_ifs with hdue
  · exact h.written_after hH (hsession.snapshot_kept hH hdir) hrecords
      ⟨hsession.next, hsession.entries, hsession.active⟩
      (fun hj => hsession.snapshot_joined hH (hring' hj)) hring'
  · exact h.written_after hH hdir hrecords hsession hjoined hring'

end

end Octos.UiLedger
