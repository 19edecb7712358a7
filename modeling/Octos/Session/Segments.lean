import Octos.Session.Files

/-!
# Segments that fold on their own

Each meta line freezes how many messages were visible before its file, and a rollback marker drops
whole threads wherever their rows are. While every marker stays within the file it is written to,
each file folds on its own: the whole history shows what its files show one after another, and so
does every window of it.
-/

namespace Octos.Session

open Octos.Agent List

variable {ι : Type} {cfg : SessionConfig ι}

/-! ## Chains -/

variable (s : SegmentFile ι)

def SegmentFile.shown : List Message := foldSessionTimeline s.timeline

def SegmentFile.push (row : SessionTimelineItem) (bytes : ℕ) : SegmentFile ι :=
  ⟨s.sessionMeta, s.timeline ++ [row], bytes⟩

def rowsOf (parts : List (SegmentFile ι)) : List SessionTimelineItem := parts.flatMap (·.timeline)

def shownBy (parts : List (SegmentFile ι)) : List Message := parts.flatMap (·.shown)

variable (first second : List (SegmentFile ι))

theorem rowsOf_append : rowsOf (first ++ second) = rowsOf first ++ rowsOf second := flatMap_append

theorem shownBy_append :
    shownBy (first ++ second) = shownBy first ++ shownBy second := flatMap_append

theorem rowsOf_singleton : rowsOf [s] = s.timeline := by simp [rowsOf]

theorem shownBy_singleton : shownBy [s] = s.shown := by simp [shownBy]

/-- The files, oldest first, fold on their own, and each meta line counts what is shown before
it. -/
structure Chain (parts : List (SegmentFile ι)) : Prop where
  stamped : ∀ s ∈ parts, ∀ item ∈ s.timeline, item.Stamped
  separate : ∀ part, part <:+: parts → foldSessionTimeline (rowsOf part) = shownBy part
  bases : ∀ before s after, parts = before ++ s :: after →
    s.sessionMeta.baseSeq = (shownBy before).length

theorem chain_nil : Chain ([] : List (SegmentFile ι)) where
  stamped := by simp
  separate := by
    intro part hpart
    rw [infix_nil.mp hpart]
    rfl
  bases := by simp

theorem Chain.of_append {first second : List (SegmentFile ι)} (h : Chain (first ++ second)) :
    Chain first where
  stamped := fun s hs => h.stamped s (mem_append_left _ hs)
  separate := fun part hpart => h.separate part (hpart.trans (prefix_append ..).isInfix)
  bases := fun before s after heq => h.bases before s (after ++ second) (by simp [heq])

variable {parts : List (SegmentFile ι)}

theorem Chain.fold (h : Chain parts) : foldSessionTimeline (rowsOf parts) = shownBy parts :=
  h.separate parts infix_rfl

theorem Chain.concat {s : SegmentFile ι} (h : Chain parts)
    (hstamped : ∀ item ∈ s.timeline, item.Stamped) (hsep : ∀ part, part <:+ parts →
      foldSessionTimeline (rowsOf part ++ s.timeline) = shownBy part ++ s.shown)
    (hbase : s.sessionMeta.baseSeq = (shownBy parts).length) : Chain (parts ++ [s]) where
  stamped := forall_mem_append.mpr ⟨h.stamped, forall_mem_singleton.mpr hstamped⟩
  separate := by
    intro part hpart
    rcases infix_concat_iff.mp hpart with hpart | hpart
    · rcases suffix_concat_iff.mp hpart with rfl | ⟨init, rfl, hinit⟩
      · rfl
      · rw [rowsOf_append, shownBy_append, rowsOf_singleton, shownBy_singleton]
        exact hsep init hinit
    · exact h.separate part hpart
  bases := by
    intro before s' after heq
    rcases eq_nil_or_concat after with rfl | ⟨after, last, rfl⟩
    · obtain ⟨rfl, hs⟩ := append_inj' heq rfl
      obtain rfl := singleton_inj.mp hs
      exact hbase
    · refine h.bases before s' after ?_
      rw [concat_eq_append, ← cons_append, ← append_assoc] at heq
      exact (append_inj' heq rfl).1

theorem Chain.concat_messages {s : SegmentFile ι} (h : Chain parts)
    {messages : List Message} (hmessages : ∀ m ∈ messages, Stamped m)
    (hrows : s.timeline = messages.map .message)
    (hbase : s.sessionMeta.baseSeq = (shownBy parts).length) :
    Chain (parts ++ [s]) ∧ s.shown = messages := by
  have hshown : s.shown = messages := by
    rw [SegmentFile.shown, hrows]
    exact fold_append_messages (fun item (hitem : item ∈ []) => by cases hitem) hmessages
  refine ⟨h.concat ?_ (fun part hpart => ?_) hbase, hshown⟩
  · rw [hrows]
    intro item hitem
    obtain ⟨m, hm, rfl⟩ := mem_map.mp hitem
    exact hmessages m hm
  · have hstamped : ∀ item ∈ rowsOf part, item.Stamped := by
      intro item hitem
      obtain ⟨s', hs', hitem⟩ := mem_flatMap.mp hitem
      exact h.stamped s' (hpart.subset hs') item hitem
    rw [hshown, hrows, fold_append_messages hstamped hmessages, h.separate part hpart.isInfix]

theorem Chain.push {s : SegmentFile ι} (h : Chain (parts ++ [s])) (row : SessionTimelineItem)
    (hrow : row.Stamped) (bytes : ℕ) (hfold : ∀ part, part <:+ parts →
      foldSessionTimeline ((rowsOf part ++ s.timeline) ++ [row]) =
        shownBy part ++ (s.push row bytes).shown) :
    Chain (parts ++ [s.push row bytes]) := by
  refine h.of_append.concat ?_ (fun part hpart => ?_) (h.bases parts s [] rfl)
  · exact forall_mem_append.mpr
      ⟨h.stamped s (mem_append_right _ mem_cons_self), forall_mem_singleton.mpr hrow⟩
  · rw [← hfold part hpart, SegmentFile.push, append_assoc]

section

variable {parts : List (SegmentFile ι)} {s : SegmentFile ι} {part : List (SegmentFile ι)}

theorem Chain.stamped_window (h : Chain (parts ++ [s])) (hpart : part <:+ parts) :
    ∀ item ∈ rowsOf part ++ s.timeline, item.Stamped := by
  rw [← rowsOf_singleton s, ← rowsOf_append]
  intro item hitem
  obtain ⟨s', hs', hitem⟩ := mem_flatMap.mp hitem
  refine h.stamped s' ?_ item hitem
  rcases mem_append.mp hs' with hs' | hs'
  · exact mem_append_left _ (hpart.subset hs')
  · exact mem_append_right _ hs'

theorem Chain.fold_window (h : Chain (parts ++ [s])) (hpart : part <:+ parts) :
    foldSessionTimeline (rowsOf part ++ s.timeline) = shownBy part ++ s.shown := by
  have hsuffix : part ++ [s] <:+ parts ++ [s] := by
    obtain ⟨front, rfl⟩ := hpart
    exact ⟨front, by rw [append_assoc]⟩
  have hfold := h.separate (part ++ [s]) hsuffix.isInfix
  rwa [rowsOf_append, shownBy_append, rowsOf_singleton, shownBy_singleton] at hfold

theorem Chain.push_message (h : Chain (parts ++ [s])) {m : Message} (hm : Stamped m) (bytes : ℕ) :
    Chain (parts ++ [s.push (.message m) bytes]) ∧
      (s.push (.message m) bytes).shown = s.shown ++ [m] := by
  have hshown := fold_concat_message (h.stamped s (mem_append_right _ mem_cons_self)) hm
  refine ⟨h.push (.message m) hm bytes fun part hpart => ?_, hshown⟩
  rw [fold_concat_message (h.stamped_window hpart) hm, h.fold_window hpart, append_assoc]
  exact congrArg (shownBy part ++ ·) hshown.symm

theorem userThreads_right {front back : List Message} (h : userThreads (front ++ back) = []) :
    userThreads back = [] := by
  rw [userThreads_append, append_eq_nil_iff] at h
  obtain ⟨hfront, hback⟩ := h
  rw [hfront] at hback
  simpa using hback

theorem userThreads_part (hpart : part <:+ parts) (hnone : userThreads (shownBy parts) = []) :
    userThreads (shownBy part) = [] := by
  obtain ⟨front, rfl⟩ := hpart
  rw [shownBy_append] at hnone
  exact userThreads_right hnone

theorem Chain.push_rollback (h : Chain (parts ++ [s])) {n : ℕ}
    (hlocal : Local n (shownBy parts) s.shown)
    (bytes : ℕ) : Chain (parts ++ [s.push (.rollback n) bytes]) ∧
      (s.push (.rollback n) bytes).shown = (dropLastNUserTurns n s.shown).1 := by
  have hshown := fold_concat_rollback (h.stamped s (mem_append_right _ mem_cons_self)) n
  refine ⟨h.push (.rollback n) trivial bytes fun part hpart => ?_, hshown⟩
  have hsubset : shownBy part ⊆ shownBy parts := by
    intro m hm
    obtain ⟨s', hs', hm⟩ := mem_flatMap.mp hm
    exact mem_flatMap.mpr ⟨s', hpart.subset hs', hm⟩
  rw [fold_concat_rollback (h.stamped_window hpart), h.fold_window hpart,
    dropLastNUserTurns_append (hlocal.mono hsubset (userThreads_part hpart))]
  exact congrArg (shownBy part ++ ·) hshown.symm

end

/-! ## The directory -/

def SegmentFile.file : DiskFile ι :=
  ⟨.ofSchema s.sessionMeta, true, s.timeline, s.bytes⟩

/-- The directory holds these segments before this active file, which may be missing after an
interrupted seal or in a new session. Other segment files may be there, but are not owned. -/
structure LaidOut (files : SessionFiles ι) (segs : List (SegmentFile ι))
    (tail : Option (SegmentFile ι)) : Prop where
  active : files.active = tail.map (·.file)
  segments : files.segments.take segs.length = segs.map fun s => some s.file
  owned : ownedSegments files = segs.length

section

variable {files : SessionFiles ι} {segs : List (SegmentFile ι)} {tail : Option (SegmentFile ι)}
  {a : SegmentFile ι}

theorem LaidOut.sealed (h : LaidOut files segs (some a)) :
    a.sessionMeta.sealedSegments = segs.length := by
  have howned := h.owned
  rw [ownedSegments, h.active] at howned
  exact howned

section

variable (h : LaidOut files segs tail)
include h

theorem LaidOut.segment {i : ℕ} {s : SegmentFile ι} (hs : segs[i]? = some s) :
    files.segment i = some s.file := by
  obtain ⟨hi, -⟩ := List.getElem?_eq_some_iff.mp hs
  have hget := congrArg (·[i]?) h.segments
  simp only [getElem?_take, hi, if_true, getElem?_map, hs, Option.map_some] at hget
  rw [SessionFiles.segment, hget]
  rfl

theorem LaidOut.sealedTimeline : sealedTimeline files = rowsOf segs := by
  rw [Session.sealedTimeline, h.owned, h.segments, flatMap_map]
  rfl

theorem LaidOut.activeTimeline : activeTimeline files = rowsOf tail.toList := by
  rw [Session.activeTimeline, h.active]
  cases tail with
  | none => rfl
  | some a => exact (rowsOf_singleton a).symm

theorem LaidOut.visible (hchain : Chain (segs ++ tail.toList)) :
    visible files = shownBy (segs ++ tail.toList) := by
  rw [Session.visible, h.sealedTimeline, h.activeTimeline, ← rowsOf_append, hchain.fold]

/-! ## Loading -/

variable (cfg) in
/-- The loop loads the newest segments, down to one whose meta line counts what is before it. -/
theorem LaidOut.loadSegments (hchain : Chain segs) (budget : ℕ) {i : ℕ}
    (hi : i ≤ segs.length) (st : LoadState ι) (hloaded : st.loaded = segs.drop i)
    (hunanchored : st.unanchored = []) (hbase : st.baseSeq = (shownBy (segs.take i)).length) :
    ∃ j ≤ segs.length, (Session.loadSegments cfg files budget i st).loaded = segs.drop j ∧
      (Session.loadSegments cfg files budget i st).baseSeq = (shownBy (segs.take j)).length := by
  induction i generalizing st with
  | zero => exact ⟨0, Nat.zero_le _, hloaded, hbase⟩
  | succ i ih =>
    have hget : segs[i]? = some segs[i] := getElem?_eq_getElem hi
    have hread : (files.segment i).bind readSegment = some segs[i] := by
      rw [h.segment hget]
      rfl
    rw [Session.loadSegments, hread]
    dsimp only
    split_ifs with hbudget
    · exact ⟨i + 1, hi, hloaded, hbase⟩
    · refine ih (Nat.le_of_succ_le hi) _ ?_ rfl ?_
      · rw [hunanchored, hloaded, nil_append]
        exact (drop_eq_getElem_cons hi).symm
      · refine hchain.bases (segs.take i) segs[i] (segs.drop (i + 1)) ?_
        rw [← drop_eq_getElem_cons hi, take_append_drop]

end

variable (cfg) in
/-- **The window** of an active file: the newest segments and what is shown before them. -/
theorem LaidOut.windowFrom (h : LaidOut files segs (some a)) (hchain : Chain (segs ++ [a]))
    (budget : ℕ) :
    ∃ j ≤ segs.length,
      (windowFrom cfg files budget a).timeline = rowsOf (segs.drop j) ++ a.timeline ∧
      (windowFrom cfg files budget a).baseSeq = (shownBy (segs.take j)).length ∧
      (windowFrom cfg files budget a).sealedSegments = segs.length ∧
      (windowFrom cfg files budget a).loadedSealed = segs.length - j := by
  have hbase := hchain.bases segs a [] rfl
  obtain ⟨j, hj, hloaded, hseq⟩ := h.loadSegments cfg hchain.of_append budget h.sealed.le
    ⟨a.bytes, [], a.sessionMeta.baseSeq, []⟩ (by simp [h.sealed]) rfl (by simp [h.sealed, hbase])
  refine ⟨j, hj, ?_, hseq, h.sealed, ?_⟩
  · rw [Session.windowFrom, hloaded]
    rfl
  · rw [Session.windowFrom, hloaded]
    exact length_drop

/-! ## Recovering -/

def recoveredFile (cfg : SessionConfig ι) (segs : List (SegmentFile ι)) (last : SegmentFile ι) :
    SegmentFile ι :=
  let sessionMeta : SessionMeta ι :=
    { last.sessionMeta with sealedSegments := segs.length, baseSeq := (shownBy segs).length }
  ⟨sessionMeta, [], cfg.metaLen sessionMeta⟩

variable {last : SegmentFile ι}

theorem Chain.recovered (h : Chain segs) : Chain (segs ++ [recoveredFile cfg segs last]) :=
  (h.concat_messages (fun m (hm : m ∈ []) => by cases hm) rfl rfl).1

theorem recoveredFile_shown (last : SegmentFile ι) : (recoveredFile cfg segs last).shown = [] := rfl

theorem Chain.writeRecovered {init : List (SegmentFile ι)}
    (h : Chain (init ++ [last])) (files : SessionFiles ι) :
    writeRecovered cfg files (init ++ [last]).length last.sessionMeta last.timeline =
      (recoveredFile cfg (init ++ [last]) last,
        { files with active := some (recoveredFile cfg (init ++ [last]) last).file }) := by
  have hcount : last.sessionMeta.baseSeq + (foldSessionTimeline last.timeline).length =
      (shownBy (init ++ [last])).length := by
    rw [h.bases init last [] rfl, shownBy_append, shownBy_singleton, length_append]
    rfl
  rw [Session.writeRecovered, hcount]
  rfl

theorem LaidOut.withActive (h : LaidOut files segs tail)
    (ha : a.sessionMeta.sealedSegments = segs.length) :
    LaidOut { files with active := some a.file } segs (some a) :=
  ⟨rfl, h.segments, ha⟩

theorem LaidOut.count (h : LaidOut files segs none) : sealedSegmentCount files = segs.length := by
  have howned := h.owned
  rw [ownedSegments, h.active] at howned
  exact howned

section

variable {init : List (SegmentFile ι)} {last : SegmentFile ι}

theorem LaidOut.lastSegment (h : LaidOut files (init ++ [last]) tail) :
    files.segment init.length = some last.file :=
  h.segment (by simp)

section

variable (h : LaidOut files (init ++ [last]) none) (hchain : Chain (init ++ [last]))
include h hchain

theorem LaidOut.recoverActiveAfterSeal :
    recoverActiveAfterSeal cfg files =
      some (recoveredFile cfg (init ++ [last]) last,
        { files with active := some (recoveredFile cfg (init ++ [last]) last).file }) := by
  have hread : (files.segment init.length).bind readSegment = some last := by
    rw [h.lastSegment]
    rfl
  have hsealed : (init ++ [last]).length = init.length + 1 := by simp
  have htemplate : recoverTemplate files (init ++ [last]).length [] =
      (some last.sessionMeta, last.timeline) := by
    rw [hsealed, recoverTemplate, hread]
    simp
  have hmissing : ¬ files.active.isSome = true := by simp [h.active]
  rw [Session.recoverActiveAfterSeal, if_neg hmissing]
  rw [h.count, if_neg (by simp), htemplate]
  exact congrArg some (hchain.writeRecovered files)

theorem LaidOut.visibleLenAfterInterruptedSeal :
    visibleLenAfterInterruptedSeal cfg files =
      .ok ((shownBy (init ++ [last])).length,
        { files with active := some (recoveredFile cfg (init ++ [last]) last).file }) := by
  have hsealed : (init ++ [last]).length = init.length + 1 := by simp
  have htemplate : recoverTemplateForSeq cfg files (init ++ [last]).length [] =
      .ok (some last.sessionMeta, last.timeline) := by
    rw [hsealed, recoverTemplateForSeq, h.lastSegment, ← append_nil last.timeline]
    rfl
  rw [Session.visibleLenAfterInterruptedSeal, h.count]
  rw [if_neg (by simp), htemplate]
  simp only [bind, Except.bind, Option.getD_some, hchain.writeRecovered files]
  rfl

end

end

/-! ## Counting -/

theorem mapM_eq_ok {α β ε : Type} {f : α → Except ε β} {g : α → β} {xs : List α}
    (h : ∀ x ∈ xs, f x = .ok (g x)) : xs.mapM f = .ok (xs.map g) := by
  induction xs with
  | nil => rfl
  | cons x xs ih =>
    rw [mapM_cons, h x mem_cons_self, ih fun y hy => h y (mem_cons_of_mem _ hy)]
    rfl

theorem LaidOut.visibleLenFromAll (h : LaidOut files segs (some a)) (hchain : Chain (segs ++ [a])) :
    visibleLenFromAllSegmentsForSeq cfg files = .ok (shownBy (segs ++ [a])).length := by
  have hactive : readSegmentForSeq cfg files.active false = .ok (a, true) := by
    rw [h.active]
    rfl
  have hsegs :
      (List.range segs.length).mapM (fun i => readSegmentForSeq cfg (files.segment i) true) =
      .ok (segs.map (·, true)) := by
    have hmap : segs.map (·, true) = (List.range segs.length).map fun i =>
        (segs.getD i a, true) := by
      refine ext_getElem (by simp) fun i hi _ => ?_
      rw [length_map] at hi
      simp [getD_eq_getElem?_getD, hi]
    rw [hmap]
    refine mapM_eq_ok fun i hi => ?_
    rw [mem_range] at hi
    rw [h.segment (getElem?_eq_getElem hi), getD_eq_getElem?_getD, getElem?_eq_getElem hi]
    rfl
  have hbase : ((segs.map (·, true)).head?.map (·.1.sessionMeta.baseSeq)).getD
      a.sessionMeta.baseSeq = 0 := by
    cases segs with
    | nil => exact hchain.bases [] a [] rfl
    | cons s rest => exact hchain.bases [] s (rest ++ [a]) rfl
  have hrows : (segs.map (·, true)).flatMap (·.1.timeline) ++ a.timeline =
      rowsOf (segs ++ [a]) := by
    rw [rowsOf_append, rowsOf_singleton, flatMap_map]
    rfl
  rw [visibleLenFromAllSegmentsForSeq, hactive]
  simp only [bind, Except.bind, h.sealed, hsegs, hbase, hrows, hchain.fold, Nat.zero_add]
  rfl

/-- **The count for the next row** is what is visible, whether or not a marker looked past its
file. -/
theorem LaidOut.visibleLenFromActive (h : LaidOut files segs (some a))
    (hchain : Chain (segs ++ [a])) :
    visibleLenFromActive cfg files = .ok (shownBy (segs ++ [a])).length := by
  have hactive : readSegmentForSeq cfg files.active false = .ok (a, true) := by
    rw [h.active]
    rfl
  rw [Session.visibleLenFromActive, hactive]
  simp only [bind, Except.bind]
  split_ifs
  · exact h.visibleLenFromAll hchain
  · rw [hchain.bases segs a [] rfl, shownBy_append, shownBy_singleton, length_append]
    rfl

end

end Octos.Session
