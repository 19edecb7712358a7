import Octos.Base.Numbered
import Octos.Base.Checked

/-!
# The UI ledger's records on disk

`ui_protocol_ledger.rs`: one session's directory holds its rotated logs and a projection snapshot of
the ring. A read of the session stitches the two: when the snapshot covers the requested range its
entries are taken from it and only the later log records are scanned, otherwise every log record is.

What the ledger does not look into (payloads of the notifications) is a type `Body`. A log line and
the record it parses to are not told apart; the length of the line is kept with the file.
-/

namespace Octos.UiLedger

open List

variable {Body : Type}

def u64Max : ℕ := UInt64.size - 1

def saturatingAddU64 (a b : ℕ) : ℕ := min (a + b) u64Max

/-- `LedgerConfig`, the fields that decide what is kept of a durable session. -/
structure LedgerConfig where
  retainedPerSession : ℕ
  rotateBytes : ℕ
  retainedLogFiles : ℕ
  snapshotEveryEvents : ℕ

/-! ## Events -/

structure UiCursor where
  stream : String
  seq : ℕ
deriving DecidableEq

/-- The variants that carry a ledger cursor, and the others. -/
inductive UiNotification (Body : Type)
  | sessionOpened (cursor : Option UiCursor) (body : Body)
  | turnCompleted (cursor : Option UiCursor) (body : Body)
  | turnSpawnComplete (cursor : UiCursor) (body : Body)
  | envelopeV2 (cursor : Option UiCursor) (body : Body)
  | other (body : Body)
deriving DecidableEq

inductive UiProtocolLedgerEvent (Body : Type)
  | notification (notification : UiNotification Body)
  | progress (body : Body)
deriving DecidableEq

def UiProtocolLedgerEvent.withCursor (cursor : UiCursor) :
    UiProtocolLedgerEvent Body → UiProtocolLedgerEvent Body
  | .notification (.sessionOpened _ body) => .notification (.sessionOpened (some cursor) body)
  | .notification (.turnCompleted _ body) => .notification (.turnCompleted (some cursor) body)
  | .notification (.turnSpawnComplete _ body) => .notification (.turnSpawnComplete cursor body)
  | .notification (.envelopeV2 _ body) => .notification (.envelopeV2 (some cursor) body)
  | .notification (.other body) => .notification (.other body)
  | .progress body => .progress body

/-- The cursor of a spawn completion is not read. -/
def notificationCursorSeq : UiNotification Body → Option ℕ
  | .sessionOpened cursor _ => cursor.map (·.seq)
  | .turnCompleted cursor _ => cursor.map (·.seq)
  | .envelopeV2 cursor _ => cursor.map (·.seq)
  | .turnSpawnComplete _ _ => none
  | .other _ => none

/-- The sequence number `write_record_locked` puts on an event's record: the event's own cursor, or
the candidate. -/
def UiProtocolLedgerEvent.cursorSeq (candidateSeq : ℕ) : UiProtocolLedgerEvent Body → ℕ
  | .notification n => (notificationCursorSeq n).getD candidateSeq
  | .progress _ => candidateSeq

theorem cursorSeq_withCursor (cursor : UiCursor) (event : UiProtocolLedgerEvent Body) :
    (event.withCursor cursor).cursorSeq cursor.seq = cursor.seq := by
  rcases event with n | body
  · cases n <;> rfl
  · rfl

structure LedgeredUiProtocolEvent (Body : Type) where
  cursor : UiCursor
  recordedAt : Option ℕ
  event : UiProtocolLedgerEvent Body
  fromConnection : Option ℕ
  externalPrompt : Bool

/-! ## What is kept -/

structure LedgerDiskRecord (Body : Type) where
  v : ℕ
  seq : ℕ
  event : UiProtocolLedgerEvent Body
  recordedAt : Option ℕ
  externalPrompt : Bool
deriving DecidableEq

def ledgerDiskVersion : ℕ := 1

/-- `LedgerEntry`, an entry of the ring in memory. -/
structure LedgerEntry (Body : Type) where
  seq : ℕ
  event : UiProtocolLedgerEvent Body
  recordedAt : Option ℕ
  externalPrompt : Bool

def LedgerDiskRecord.entry (r : LedgerDiskRecord Body) : LedgerEntry Body :=
  ⟨r.seq, r.event, r.recordedAt, r.externalPrompt⟩

/-- A ring entry as `write_session_snapshot_locked` records it. -/
def LedgerEntry.record (e : LedgerEntry Body) : LedgerDiskRecord Body :=
  ⟨ledgerDiskVersion, e.seq, e.event, e.recordedAt, e.externalPrompt⟩

/-- A ring entry as a replay returns it, on the session's stream. -/
def LedgerEntry.ledgered (stream : String) (e : LedgerEntry Body) : LedgeredUiProtocolEvent Body :=
  ⟨⟨stream, e.seq⟩, e.recordedAt, e.event, none, e.externalPrompt⟩

structure SessionSnapshotFile (Body : Type) where
  version : ℕ
  headSeq : ℕ
  entries : List (LedgerDiskRecord Body)

def sessionSnapshotVersion : ℕ := 1

/-- One log file: its place in the order of names, its length and its records. -/
structure LogFile (Body : Type) where
  name : ℕ
  bytes : ℕ
  records : List (LedgerDiskRecord Body)

/-- A session's directory. The logs are listed in the order of their names, as every reader of them
sorts them. -/
structure SessionDir (Body : Type) where
  logs : List (LogFile Body)
  snapshot : Option (SessionSnapshotFile Body)

def SessionDir.records (dir : SessionDir Body) : List (LedgerDiskRecord Body) :=
  dir.logs.flatMap (·.records)

/-! ## Reading the snapshot file -/

/-- Why `read_session_snapshot` refuses a snapshot file. -/
inductive SnapshotError
  | unknownVersion (version : ℕ)
  | outOfOrder (seq : ℕ)

/-- The check of the entries: numbers increase from 1 and stay within the head. -/
def checkSnapshotEntries (headSeq : ℕ) : ℕ → List (LedgerDiskRecord Body) →
    Except SnapshotError Unit
  | _, [] => pure ()
  | prev, r :: rest =>
    if r.seq ≤ prev ∨ headSeq < r.seq then throw (.outOfOrder r.seq)
    else checkSnapshotEntries headSeq r.seq rest

def readSessionSnapshot (dir : SessionDir Body) :
    Except SnapshotError (Option (SessionSnapshotFile Body)) :=
  match dir.snapshot with
  | none => pure none
  | some snapshot => do
    if snapshot.version ≠ sessionSnapshotVersion then throw (.unknownVersion snapshot.version)
    checkSnapshotEntries snapshot.headSeq 0 snapshot.entries
    return some snapshot

theorem mem_of_readSessionSnapshot {dir : SessionDir Body} {snapshot : SessionSnapshotFile Body}
    (h : readSessionSnapshot dir = .ok (some snapshot)) : snapshot ∈ dir.snapshot := by
  rw [readSessionSnapshot] at h
  split at h
  · cases h
  next found hfound =>
    split_ifs at h with hversion
    · cases h
    · obtain ⟨-, -, h⟩ := bind_eq_ok.mp h
      cases h
      exact hfound

/-! ## Reading a session back -/

/-- The accumulators of `read_session_disk_snapshot`. -/
structure DiskScan (Body : Type) where
  oldestSeq : Option ℕ
  headSeq : ℕ
  retainedEntries : List (LedgerEntry Body)
  replayEntries : List (LedgeredUiProtocolEvent Body)
  unrecoverableRecords : ℕ

structure DiskSessionSnapshot (Body : Type) extends DiskScan Body where
  activeLogPath : ℕ
  activeLogBytes : ℕ

def DiskScan.empty : DiskScan Body := ⟨none, 0, [], [], 0⟩

/-- `oldest_seq.get_or_insert`. -/
def DiskScan.noteOldest (scan : DiskScan Body) (seq : ℕ) : DiskScan Body :=
  { scan with oldestSeq := some (scan.oldestSeq.getD seq) }

section

variable (cfg : LedgerConfig) (stream : String) (replayAfterSeq : Option ℕ)

/-- Take a record up: into the replay when it is past the requested cursor, and into the ring. -/
def DiskScan.materialise (scan : DiskScan Body) (r : LedgerDiskRecord Body) : DiskScan Body :=
  { scan with
    replayEntries :=
      if replayAfterSeq.any (· < r.seq) then scan.replayEntries ++ [r.entry.ledgered stream]
      else scan.replayEntries
    retainedEntries := keepLast cfg.retainedPerSession (scan.retainedEntries ++ [r.entry]) }

/-- Whether the snapshot answers for the requested range, so that the log records up to its head are
skipped. -/
def shortcutOk (fromBeginningHydrate : Bool) (snapshot : SessionSnapshotFile Body) : Bool :=
  (snapshot.entries.head?.map (·.seq)).any fun oldest =>
    match replayAfterSeq with
    | some after =>
      if after = 0 ∧ fromBeginningHydrate then 1 ≤ oldest
      else 1 ≤ oldest ∧ oldest ≤ saturatingAddU64 after 1
    | none => 1 ≤ oldest

variable {replayAfterSeq} in
theorem ne_nil_of_shortcutOk {fromBeginningHydrate : Bool} {snapshot : SessionSnapshotFile Body}
    (h : shortcutOk replayAfterSeq fromBeginningHydrate snapshot = true) :
    snapshot.entries ≠ [] := by
  rintro hnil
  rw [shortcutOk, hnil] at h
  exact Bool.false_ne_true h

variable (snapshot : SessionSnapshotFile Body)

/-- Seed the scan from the snapshot file. With the shortcut off only its head is taken. -/
def seedSnapshot (shortcut : Bool) : DiskScan Body :=
  let start : DiskScan Body := { DiskScan.empty with headSeq := snapshot.headSeq }
  let scan := snapshot.entries.foldl
    (fun scan r =>
      let scan := scan.noteOldest r.seq
      if shortcut then scan.materialise cfg stream replayAfterSeq r else scan) start
  if shortcut then scan else { scan with oldestSeq := none }

def scanRecord (skipThroughSeq : ℕ) (scan : DiskScan Body) (r : LedgerDiskRecord Body) :
    DiskScan Body :=
  if r.v ≠ ledgerDiskVersion then
    { scan with unrecoverableRecords := scan.unrecoverableRecords + 1 }
  else
    let scan := { scan.noteOldest r.seq with headSeq := max scan.headSeq r.seq }
    if r.seq ≤ skipThroughSeq then scan else scan.materialise cfg stream replayAfterSeq r

/-- Nothing when the session has no directory or no log. -/
def readSessionDiskSnapshot (fromBeginningHydrate : Bool) :
    Option (SessionDir Body) → Option (DiskSessionSnapshot Body)
  | none => none
  | some dir =>
    match dir.logs.getLast? with
    | none => none
    | some active =>
      let scanFrom (skipThroughSeq : ℕ) (seeded : DiskScan Body) : DiskScan Body :=
        dir.records.foldl (scanRecord cfg stream replayAfterSeq skipThroughSeq) seeded
      let scan :=
        match readSessionSnapshot dir with
        | .ok (some snapshot) =>
          let shortcut := shortcutOk replayAfterSeq fromBeginningHydrate snapshot
          scanFrom (if shortcut then snapshot.headSeq else 0)
            (seedSnapshot cfg stream replayAfterSeq snapshot shortcut)
        -- no snapshot file, or an unusable one: the logs are replayed in full
        | .ok none => scanFrom 0 DiskScan.empty
        | .error _ => scanFrom 0 DiskScan.empty
      some { scan with activeLogPath := active.name, activeLogBytes := active.bytes }

/-! ## What a read shows -/

/-- The scan shows the records `taken` of a session whose head is `head`: they are what is replayed
and what the ring is filled from, and the first of them is the oldest number reported. -/
structure DiskScan.Shows (scan : DiskScan Body) (taken : List (LedgerDiskRecord Body)) (head : ℕ) :
    Prop where
  oldest : scan.oldestSeq = taken.head?.map (·.seq)
  head : scan.headSeq = head
  retained : scan.retainedEntries = (keepLast cfg.retainedPerSession taken).map (·.entry)
  replay : scan.replayEntries =
    (taken.filter fun r => replayAfterSeq.any (· < r.seq)).map (·.entry.ledgered stream)
  readable : scan.unrecoverableRecords = 0

variable {cfg stream replayAfterSeq} {scan : DiskScan Body} {taken : List (LedgerDiskRecord Body)}
  {head : ℕ} {r : LedgerDiskRecord Body}

variable (cfg stream replayAfterSeq) in
theorem DiskScan.shows_empty (head : ℕ) :
    ({ DiskScan.empty with headSeq := head } : DiskScan Body).Shows cfg stream replayAfterSeq []
      head where
  oldest := rfl
  head := rfl
  retained := by
    rw [keepLast_of_length_le (Nat.zero_le _)]
    rfl
  replay := rfl
  readable := rfl

section

variable (h : scan.Shows cfg stream replayAfterSeq taken head)
include h

theorem DiskScan.Shows.materialise :
    ((scan.noteOldest r.seq).materialise cfg stream replayAfterSeq r).Shows cfg stream
      replayAfterSeq
      (taken ++ [r]) head where
  oldest := by
    rw [DiskScan.materialise, DiskScan.noteOldest, h.oldest]
    cases taken <;> rfl
  head := h.head
  retained := by
    simp only [DiskScan.materialise, DiskScan.noteOldest]
    rw [h.retained, ← keepLast_map, keepLast_append, ← keepLast_map, map_append, map_singleton]
  replay := by
    simp only [DiskScan.materialise, DiskScan.noteOldest, h.replay]
    split_ifs with hpast <;> simp [hpast]
  readable := h.readable

variable {skip : ℕ}

/-- A log record adds itself when it is past the skipped numbers. One that is skipped leaves the
oldest number alone because something was taken before it. -/
theorem DiskScan.Shows.scanRecord (hv : r.v = ledgerDiskVersion)
    (hskip : r.seq ≤ skip → taken ≠ []) :
    (UiLedger.scanRecord cfg stream replayAfterSeq skip scan r).Shows cfg stream replayAfterSeq
      (taken ++ [r].filter fun r => skip < r.seq) (max head r.seq) := by
  rw [UiLedger.scanRecord, if_neg (not_not_intro hv)]
  by_cases hle : r.seq ≤ skip
  · obtain ⟨first, rest, htaken⟩ := exists_cons_of_ne_nil (hskip hle)
    have hnone : [r].filter (fun r => skip < r.seq) = [] := by simpa using hle
    rw [if_pos hle, hnone, append_nil]
    refine ⟨?_, ?_, h.retained, h.replay, h.readable⟩
    · simp [DiskScan.noteOldest, h.oldest, htaken, head?_cons]
    · simp [h.head]
  · have hsome : [r].filter (fun r => skip < r.seq) = [r] := by simpa using hle
    rw [if_neg hle, hsome]
    have htook := h.materialise (r := r)
    exact ⟨htook.oldest, by simp only [DiskScan.materialise, h.head], htook.retained, htook.replay,
      htook.readable⟩

/-- **The scan of the logs** takes up the records past the skipped numbers. -/
theorem DiskScan.Shows.foldl_scanRecord {rs : List (LedgerDiskRecord Body)}
    (hv : ∀ r ∈ rs, r.v = ledgerDiskVersion) (hskip : taken = [] → ∀ r ∈ rs, skip < r.seq) :
    (rs.foldl (UiLedger.scanRecord cfg stream replayAfterSeq skip) scan).Shows cfg stream
      replayAfterSeq (taken ++ rs.filter fun r => skip < r.seq)
        ((rs.map (·.seq)).foldl max head) := by
  induction rs generalizing scan taken head with
  | nil => simpa using h
  | cons r rs ih =>
    have hstep := h.scanRecord (hv r mem_cons_self)
      fun (hle : r.seq ≤ skip) hnil => absurd (hskip hnil r mem_cons_self) (by omega)
    have hrest := ih hstep (fun r' hr' => hv r' (mem_cons_of_mem _ hr'))
      fun hnil r' hr' => hskip (append_eq_nil_iff.mp hnil).1 r' (mem_cons_of_mem _ hr')
    rw [append_assoc, ← filter_append] at hrest
    exact hrest

end

variable (cfg stream replayAfterSeq) in
theorem DiskScan.shows_seedSnapshot :
    (seedSnapshot cfg stream replayAfterSeq snapshot true).Shows cfg stream replayAfterSeq
      snapshot.entries snapshot.headSeq := by
  suffices hfold : ∀ (rs : List (LedgerDiskRecord Body)) (scan : DiskScan Body) (taken),
      scan.Shows cfg stream replayAfterSeq taken snapshot.headSeq →
      (rs.foldl (fun scan r => (scan.noteOldest r.seq).materialise cfg stream replayAfterSeq r)
        scan).Shows cfg stream replayAfterSeq (taken ++ rs) snapshot.headSeq by
    exact hfold snapshot.entries _ []
      (DiskScan.shows_empty cfg stream replayAfterSeq snapshot.headSeq)
  intro rs
  induction rs with
  | nil =>
    intro scan taken h
    simpa using h
  | cons r rs ih =>
    intro scan taken h
    have hrest := ih _ _ (h.materialise (r := r))
    rwa [append_assoc] at hrest

theorem seedSnapshot_false :
    seedSnapshot cfg stream replayAfterSeq snapshot false =
      { DiskScan.empty with headSeq := snapshot.headSeq } := by
  suffices hfold : ∀ (rs : List (LedgerDiskRecord Body)) (scan : DiskScan Body),
      { rs.foldl (fun scan r => scan.noteOldest r.seq) scan with oldestSeq := none } =
        { scan with oldestSeq := none } by
    exact hfold snapshot.entries _
  intro rs
  induction rs with
  | nil => exact fun _ => rfl
  | cons r rs ih => exact fun scan => (ih (scan.noteOldest r.seq)).trans rfl

end

end Octos.UiLedger
