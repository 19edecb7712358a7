import Octos.Session.Timeline
import Octos.Base.Checked
import Octos.Base.Runs

/-!
# Session files

`octos-bus/src/session.rs`: a session is an active file that rows are appended to and, beside it,
sealed segments. A file that has reached the segment size is sealed: renamed into the directory of
segments, with a fresh active file in its place. The meta line of each file records how many
segments precede it and how many messages were visible in them.

Files are read and written without failure, and the process may stop between the two halves of a
seal. Segment files are numbered from 0 here and from 1 in their names.
-/

namespace Octos.Session

open Octos.Agent

variable {ι : Type}

/-! ## What is on disk -/

/-- `SessionMeta`. The key, topic, summary, contracts and times are `identity`. The count of sealed
segments is a `u32`: what is said about it is about fewer than `2 ^ 32` files. -/
structure SessionMeta (ι : Type) where
  identity : ι
  title : Option String
  titleManual : Bool
  sealedSegments : ℕ
  baseSeq : ℕ

/-- The first line of a file: a meta line, one of a newer schema, or no meta line, in which case it
may still be a row. -/
inductive MetaLine (ι : Type)
  | ofSchema (sessionMeta : SessionMeta ι)
  | newerSchema (sessionMeta : SessionMeta ι)
  | unreadable (row : Option SessionTimelineItem)

/-- A file that is not empty. `namesSealed` is `active_meta_records_sealed_segments`. -/
structure DiskFile (ι : Type) where
  metaLine : MetaLine ι
  namesSealed : Bool
  rows : List SessionTimelineItem
  bytes : ℕ

/-- `read_session_meta`, which does not look at the schema. -/
def DiskFile.sessionMeta (file : DiskFile ι) : Option (SessionMeta ι) :=
  match file.metaLine with
  | .ofSchema sessionMeta => some sessionMeta
  | .newerSchema sessionMeta => some sessionMeta
  | .unreadable _ => none

/-- The files of a session. The active file may be missing; so may any segment. -/
structure SessionFiles (ι : Type) where
  active : Option (DiskFile ι)
  segments : List (Option (DiskFile ι))

/-- Before the session's first row. -/
def SessionFiles.empty : SessionFiles ι := ⟨none, []⟩

def SessionFiles.segment (files : SessionFiles ι) (i : ℕ) : Option (DiskFile ι) :=
  files.segments[i]?.join

/-- The segments that are there without a gap. -/
def sealedSegmentCount (files : SessionFiles ι) : ℕ :=
  (files.segments.takeWhile Option.isSome).length

/-- The segment size, the lengths of encoded lines, and the identity rebuilt from the key alone. -/
structure SessionConfig (ι : Type) where
  segmentBytes : ℕ
  minimum : 64 * 1024 ≤ segmentBytes
  metaLen : SessionMeta ι → ℕ
  rowLen : SessionTimelineItem → ℕ
  placeholder : ι

/-- The greatest budget, which loads everything. -/
def unlimited : ℕ := UInt64.size - 1

/-! ## Reading files -/

structure SegmentFile (ι : Type) where
  sessionMeta : SessionMeta ι
  timeline : List SessionTimelineItem
  bytes : ℕ

def readSegment (file : DiskFile ι) : Option (SegmentFile ι) :=
  match file.metaLine with
  | .ofSchema sessionMeta => some ⟨sessionMeta, file.rows, file.bytes⟩
  | .newerSchema _ => none
  | .unreadable _ => none

/-- The rows of a file whose meta line is of no use, with the first line when it is one. -/
def rowsWithoutMeta (file : DiskFile ι) : List SessionTimelineItem :=
  match file.metaLine with
  | .ofSchema _ => file.rows
  | .newerSchema _ => file.rows
  | .unreadable row => row.toList ++ file.rows

section

variable (cfg : SessionConfig ι) (files : SessionFiles ι)

/-- `SessionMeta::placeholder`. -/
def placeholderMeta : SessionMeta ι := ⟨cfg.placeholder, none, false, 0, 0⟩

def readSegmentRowsWithoutMeta (file : DiskFile ι) : SegmentFile ι :=
  ⟨placeholderMeta cfg, rowsWithoutMeta file, file.bytes⟩

/-- Why a strict read for a sequence number fails. -/
inductive SeqError
  | couldNotRead
  | unsupportedSchema
  | couldNotParseMeta

/-- `read_segment_for_seq`, with whether the meta line was usable. -/
def readSegmentForSeq (file : Option (DiskFile ι)) (allowMissingMeta : Bool) :
    Except SeqError (SegmentFile ι × Bool) :=
  match file with
  | none => .error .couldNotRead
  | some file =>
    match file.metaLine with
    | .ofSchema sessionMeta => .ok (⟨sessionMeta, file.rows, file.bytes⟩, true)
    | .newerSchema _ =>
      if allowMissingMeta then .ok (readSegmentRowsWithoutMeta cfg file, false)
      else .error .unsupportedSchema
    | .unreadable _ =>
      if allowMissingMeta then .ok (readSegmentRowsWithoutMeta cfg file, false)
      else .error .couldNotParseMeta

/-! ## Recovering from an interrupted seal -/

/-- The meta line written by a repair. -/
def writeRecovered (sealed : ℕ) (template : SessionMeta ι) (timeline : List SessionTimelineItem) :
    SegmentFile ι × SessionFiles ι :=
  let sessionMeta : SessionMeta ι :=
    { template with
      sealedSegments := sealed
      baseSeq := template.baseSeq + (foldSessionTimeline timeline).length }
  (⟨sessionMeta, [], cfg.metaLen sessionMeta⟩,
    { files with active := some ⟨.ofSchema sessionMeta, true, [], cfg.metaLen sessionMeta⟩ })

/-- The newest readable meta line among the first segments, with the rows from there on. -/
def recoverTemplate (files : SessionFiles ι) :
    ℕ → List SessionTimelineItem → Option (SessionMeta ι) × List SessionTimelineItem
  | 0, timeline => (none, timeline)
  | i + 1, timeline =>
    match (files.segment i).bind readSegment with
    | some segment => (some segment.sessionMeta, segment.timeline ++ timeline)
    | none => recoverTemplate files i (((files.segment i).map rowsWithoutMeta).getD [] ++ timeline)

def recoverActiveAfterSeal : Option (SegmentFile ι × SessionFiles ι) :=
  if files.active.isSome then none
  else
    let sealed := sealedSegmentCount files
    if sealed = 0 then none
    else
      let found := recoverTemplate files sealed []
      some (writeRecovered cfg files sealed (found.1.getD (placeholderMeta cfg)) found.2)

/-- The strict counterpart of `recoverTemplate`. -/
def recoverTemplateForSeq (files : SessionFiles ι) :
    ℕ → List SessionTimelineItem →
      Except SeqError (Option (SessionMeta ι) × List SessionTimelineItem)
  | 0, timeline => .ok (none, timeline)
  | i + 1, timeline => do
    let segment ← readSegmentForSeq cfg (files.segment i) true
    if segment.2 then return (some segment.1.sessionMeta, segment.1.timeline ++ timeline)
    else recoverTemplateForSeq files i (segment.1.timeline ++ timeline)

def visibleLenAfterInterruptedSeal : Except SeqError (ℕ × SessionFiles ι) := do
  let sealed := sealedSegmentCount files
  if sealed = 0 then return (0, files)
  else
    let found ← recoverTemplateForSeq cfg files sealed []
    let written := writeRecovered cfg files sealed (found.1.getD (placeholderMeta cfg)) found.2
    return (written.1.sessionMeta.baseSeq, written.2)

/-! ## Loading -/

/-- The accumulators of `load_session_window`, oldest segment first. -/
structure LoadState (ι : Type) where
  spent : ℕ
  loaded : List (SegmentFile ι)
  baseSeq : ℕ
  unanchored : List (SegmentFile ι)

/-- The loop of `load_session_window` over the first segments, newest first. -/
def loadSegments (files : SessionFiles ι) (budget : ℕ) : ℕ → LoadState ι → LoadState ι
  | 0, st => st
  | i + 1, st =>
    let size := ((files.segment i).map (·.bytes)).getD 0
    let spent := min (st.spent + size) unlimited
    if budget < spent then st
    else
      match (files.segment i).bind readSegment with
      | some segment =>
        loadSegments files budget i
          { spent := spent
            loaded := segment :: (st.unanchored ++ st.loaded)
            baseSeq := segment.sessionMeta.baseSeq
            unanchored := [] }
      | none =>
        match files.segment i with
        | none => st
        | some file =>
          let unanchored := readSegmentRowsWithoutMeta cfg file :: st.unanchored
          -- index 1 of the source: nothing precedes it
          if i = 0 then ⟨spent, unanchored ++ st.loaded, 0, []⟩
          else loadSegments files budget i { st with spent := spent, unanchored := unanchored }

structure SessionWindow (ι : Type) where
  sessionMeta : SessionMeta ι
  timeline : List SessionTimelineItem
  baseSeq : ℕ
  sealedSegments : ℕ
  loadedSealed : ℕ

def windowFrom (budget : ℕ) (active : SegmentFile ι) : SessionWindow ι :=
  let sealedTotal := active.sessionMeta.sealedSegments
  let st := loadSegments cfg files budget sealedTotal
    ⟨active.bytes, [], active.sessionMeta.baseSeq, []⟩
  { sessionMeta := active.sessionMeta
    timeline := st.loaded.flatMap (·.timeline) ++ active.timeline
    baseSeq := st.baseSeq
    sealedSegments := sealedTotal
    loadedSealed := st.loaded.length }

def loadSessionWindow (budget : ℕ) : Option (SessionWindow ι) × SessionFiles ι :=
  match files.active.bind readSegment with
  | some active => (some (windowFrom cfg files budget active), files)
  | none =>
    match recoverActiveAfterSeal cfg files with
    | none => (none, files)
    | some recovered => (some (windowFrom cfg recovered.2 budget recovered.1), recovered.2)

/-! ## Counting what is visible -/

def visibleLenFromAllSegmentsForSeq : Except SeqError ℕ := do
  let active ← readSegmentForSeq cfg files.active false
  let segments ← (List.range active.1.sessionMeta.sealedSegments).mapM fun i =>
    readSegmentForSeq cfg (files.segment i) true
  let baseSeq := (segments.head?.map (·.1.sessionMeta.baseSeq)).getD active.1.sessionMeta.baseSeq
  let timeline := segments.flatMap (·.1.timeline) ++ active.1.timeline
  return baseSeq + (foldSessionTimeline timeline).length

def visibleLenFromActive : Except SeqError ℕ := do
  let segment ← readSegmentForSeq cfg files.active false
  let baseSeq := segment.1.sessionMeta.baseSeq
  let folded := foldSessionTimelineTrackingSpill segment.1.timeline
  if folded.2 ∧ 0 < baseSeq then visibleLenFromAllSegmentsForSeq cfg files
  else return baseSeq + folded.1.length

/-- `next_committed_seq`, without the cached watermark; a repair may write the active file. -/
def nextCommittedSeq : Except SeqError (ℕ × SessionFiles ι) :=
  match files.active with
  | none =>
    if sealedSegmentCount files = 0 then .ok (0, files)
    else visibleLenAfterInterruptedSeal cfg files
  | some _ => (visibleLenFromActive cfg files).map (·, files)

end

/-! ## Appending -/

/-- What a session in memory puts into a meta line. -/
structure SessionInfo (ι : Type) where
  identity : ι
  title : Option String
  titleManual : Bool

def SessionInfo.metaFor (info : SessionInfo ι) (sealedSegments baseSeq : ℕ) : SessionMeta ι :=
  ⟨info.identity, info.title, info.titleManual, sealedSegments, baseSeq⟩

/-- A title set by hand stays. -/
def SessionMeta.keepManualTitle (sessionMeta : SessionMeta ι) (previous : Option (SessionMeta ι)) :
    SessionMeta ι :=
  match previous.filter (·.titleManual) with
  | some previous => { sessionMeta with title := previous.title, titleManual := true }
  | none => sessionMeta

def setSegment (segments : List (Option (DiskFile ι))) (i : ℕ) (file : DiskFile ι) :
    List (Option (DiskFile ι)) :=
  if i < segments.length then segments.set i (some file)
  else segments ++ List.replicate (i - segments.length) none ++ [some file]

/-- How many segments precede the active file, as its meta line or the directory says. -/
def ownedSegments (files : SessionFiles ι) : ℕ :=
  ((files.active.bind DiskFile.sessionMeta).map (·.sealedSegments)).getD (sealedSegmentCount files)

section

variable (cfg : SessionConfig ι) (files : SessionFiles ι)

/-- The decision of `append_row_rolling`: whether the active file is sealed now. A file whose meta
line does not name its sealed count is not sealed over another one. -/
def sealsNow : Bool :=
  files.active.any fun file =>
    cfg.segmentBytes ≤ file.bytes &&
      !((files.segment (ownedSegments files)).isSome && !file.namesSealed)

/-- The rename of a seal: the active file becomes the next segment. -/
def renameActive : SessionFiles ι :=
  match files.active with
  | none => files
  | some file => ⟨none, setSegment files.segments (ownedSegments files) file⟩

/-- A row written to the active file, which is created with the given meta line. -/
def writeRow (fresh : SessionMeta ι) (row : SessionTimelineItem) (files : SessionFiles ι) :
    SessionFiles ι :=
  let file := files.active.getD ⟨.ofSchema fresh, true, [], cfg.metaLen fresh⟩
  { files with
    active := some { file with rows := file.rows ++ [row], bytes := file.bytes + cfg.rowLen row } }

def appendRowRolling (nextSeq : ℕ) (info : SessionInfo ι) (row : SessionTimelineItem)
    (files : SessionFiles ι) : Except SeqError (Bool × SessionFiles ι) :=
  if sealsNow cfg files then do
    let baseSeq ← visibleLenFromActive cfg files
    let fresh := (info.metaFor (ownedSegments files + 1) baseSeq).keepManualTitle
      (files.active.bind DiskFile.sessionMeta)
    return (true, writeRow cfg fresh row (renameActive files))
  else
    return (false, writeRow cfg (info.metaFor (sealedSegmentCount files) nextSeq) row files)

/-- Nothing for an assistant or tool row without a thread. -/
def deriveThreadIdForNewWrite (freshId : String) (m : Message) : Option (Option String) :=
  match m.role with
  | .system => some none
  | .user => some (some (m.clientMessageId.getD freshId))
  | .assistant => none
  | .tool => none

/-- The thread id that a new row is stamped with; the row is rejected when there is none. -/
def stampThreadId (freshId : String) (m : Message) : Option Message :=
  if m.threadId.isSome then some m
  else (deriveThreadIdForNewWrite freshId m).map fun threadId => { m with threadId := threadId }

/-- `add_message_with_seq`, on disk. -/
def addMessage (info : SessionInfo ι) (freshId : String) (m : Message) (files : SessionFiles ι) :
    SessionFiles ι :=
  match stampThreadId freshId m with
  | none => files
  | some m =>
    match nextCommittedSeq cfg files with
    | .error _ => files
    | .ok next =>
      match appendRowRolling cfg next.1 info (.message m) next.2 with
      | .error _ => next.2
      | .ok appended => appended.2

/-- `add_message_with_seq` in a process that stops right after the rename of a seal. -/
def addMessageInterrupted : SessionFiles ι :=
  match nextCommittedSeq cfg files with
  | .error _ => files
  | .ok next =>
    if sealsNow cfg next.2 then
      match visibleLenFromActive cfg next.2 with
      | .error _ => next.2
      | .ok _ => renameActive next.2
    else next.2

def appendRollbackMarker (numTurns : ℕ) (files : SessionFiles ι) : SessionFiles ι :=
  match files.active with
  | none => files
  | some file =>
    let row : SessionTimelineItem := .rollback numTurns
    { files with
      active :=
        some { file with rows := file.rows ++ [row], bytes := file.bytes + cfg.rowLen row } }

/-- `rollback_last_n_user_turns`, on disk: the marker is written as asked for, when there is a turn
to drop. -/
def rollbackLastNUserTurns (numTurns : ℕ) (files : SessionFiles ι) : SessionFiles ι :=
  match loadSessionWindow cfg files unlimited with
  | (none, files) => files
  | (some window, files) =>
    if min numTurns (countUserTurns (foldSessionTimeline window.timeline)) = 0 then files
    else appendRollbackMarker cfg numTurns files

/-! ## Rewriting -/

/-- A message that names its thread, as every message of a session in memory does. -/
abbrev StampedMessage := { m : Message // Stamped m }

/-- `Session`: the loaded window in memory. -/
structure LoadedSession (ι : Type) where
  info : SessionInfo ι
  messages : List StampedMessage
  baseSeq : ℕ
  sealedSegments : ℕ
  loadedSealed : ℕ

def openSession (info : SessionInfo ι) (budget : ℕ) (files : SessionFiles ι) :
    LoadedSession ι × SessionFiles ι :=
  let loaded := loadSessionWindow cfg files budget
  match loaded.1 with
  | none => (⟨info, [], 0, 0, 0⟩, loaded.2)
  | some window =>
    (⟨info,
      (foldSessionTimeline window.timeline).attachWith Stamped (stamped_fold window.timeline),
      window.baseSeq, window.sealedSegments, window.loadedSealed⟩, loaded.2)

/-- `rewrite_active_from_window`, with the sealed count it records. `leftBehind` are the merged
segments whose removal fails. It refuses when the meta line hides segments. -/
def rewriteActiveFromWindow (leftBehind : List ℕ) (session : LoadedSession ι)
    (files : SessionFiles ι) : Option (ℕ × SessionFiles ι) :=
  if !(files.active.any (·.namesSealed)) ∧ 0 < sealedSegmentCount files then none
  else
    let remaining := session.sealedSegments - session.loadedSealed
    let sessionMeta := (session.info.metaFor remaining session.baseSeq).keepManualTitle
      (files.active.bind DiskFile.sessionMeta)
    let rows := session.messages.map fun m => SessionTimelineItem.message m.1
    let active : DiskFile ι :=
      ⟨.ofSchema sessionMeta, true, rows, cfg.metaLen sessionMeta + (rows.map cfg.rowLen).sum⟩
    some (remaining,
      { active := some active
        segments := files.segments.mapIdx fun i file =>
          if remaining ≤ i ∧ i < session.sealedSegments ∧ i ∉ leftBehind then none else file })

/-- A session is loaded, its messages are replaced, and it is rewritten. -/
def rewriteWith (info : SessionInfo ι) (budget : ℕ) (leftBehind : List ℕ)
    (edit : List StampedMessage → List StampedMessage) (files : SessionFiles ι) : SessionFiles ι :=
  let opened := openSession cfg info budget files
  let session := { opened.1 with messages := edit opened.1.messages }
  match rewriteActiveFromWindow cfg leftBehind session opened.2 with
  | none => opened.2
  | some rewritten => rewritten.2

inductive Op (ι : Type)
  | append (info : SessionInfo ι) (freshId : String) (m : Message)
  | interruptedAppend
  | rollback (numTurns : ℕ)
  | rewrite (info : SessionInfo ι) (budget : ℕ) (leftBehind : List ℕ)
      (edit : List StampedMessage → List StampedMessage)

def step : Op ι → SessionFiles ι
  | .append info freshId m => addMessage cfg info freshId m files
  | .interruptedAppend => addMessageInterrupted cfg files
  | .rollback numTurns => rollbackLastNUserTurns cfg numTurns files
  | .rewrite info budget leftBehind edit => rewriteWith cfg info budget leftBehind edit files

end

/-! ## The whole history -/

variable (files : SessionFiles ι)

def sealedTimeline : List SessionTimelineItem :=
  (files.segments.take (ownedSegments files)).flatMap fun file => (file.map rowsWithoutMeta).getD []

def activeTimeline : List SessionTimelineItem :=
  (files.active.map rowsWithoutMeta).getD []

/-- The fold of the whole history: all owned segments and the active file. -/
def visible : List Message :=
  foldSessionTimeline (sealedTimeline files ++ activeTimeline files)

end Octos.Session
