import Octos.Supervision.Consistency

/-!
# Loads are folds of prefixes

Any number of calls append, compact and load at the same time, and each can end after any of its
file operations. The sequences of the committed rows increase, and a call of `load_state` returns
the fold of a prefix of them that has every row committed before it began, in every run in which two
things do not happen: that a load looks for the snapshot while `rename_replace` has removed the old
one and not yet put the new one in its place, with rows that are in no ledger any more
(`load_misses_compacted_rows`), and that a load reads a ledger with a line that was cut inside a
character.

## Main results

* `Store.stepOk_exec`: a step keeps the files consistent and makes the next one ready
* `loads_are_prefixes`: sequences increase, and every load is the fold of a prefix
-/

namespace Octos.Supervision

open List Store Supervision.Action

/-! ## What a step relies on -/

/-- What holds when a step is about to be taken. -/
def Action.Ready (s : Store) : Action → Prop
  | acquire call | refresh call => call.events ≠ []
  | write call =>
    call.events ≠ [] ∧
      (s.caches call.store).lastSequence = highest LedgerRow.sequence s.committed ∧
      (0 < (s.caches call.store).ledgerRows → s.compacted < s.committed.length)
  | writeSnapshotTmp _ => s.compacted < s.committed.length
  | removeSnapshot _ =>
    s.compacted < s.committed.length ∧ s.snapshotTmp = some (snapshotOf s.committed)
  | renameSnapshot _ => s.snapshotTmp = some (snapshotOf s.committed)
  | removeRotated _ _ | rotate _ _ => s.snapshot = some (snapshotOf s.committed)
  | release | openLedger => True
  | readRows none since => since ≤ s.compacted
  | readRows (some i) since => ∃ file, s.files[i]? = some file ∧
      since ≤ file.start + file.rows.length
  | readSnapshot rows since => ∃ k e, k ≤ s.compacted ∧ since ≤ e ∧ e ≤ s.committed.length ∧
      rows = (s.committed.take e).drop k

variable {s s' : Store}

theorem Action.Ready.grows {a : Action} (h : a.Ready s) (hgrows : Store.Grows s s')
    (ha : a.holdsLock = false) : a.Ready s' := by
  cases a with
  | acquire => exact h
  | openLedger => trivial
  | readRows file =>
    cases file with
    | none => exact le_trans h hgrows.compacted
    | some i =>
      obtain ⟨file, hi, hsince⟩ := h
      obtain ⟨file', hi', hstart, hlen⟩ := hgrows.files i file hi
      exact ⟨file', hi', by omega⟩
  | readSnapshot =>
    obtain ⟨k, e, hk, hsince, he, rfl⟩ := h
    obtain ⟨new, hnew⟩ := hgrows.committed
    refine ⟨k, e, hk.trans hgrows.compacted, hsince, ?_, ?_⟩
    · rw [← hnew, length_append]
      omega
    · rw [← hnew, take_append_of_le_length he]
  | _ => cases ha

/-- From `s` to `s'` only the lock and the loads changed. -/
structure Store.Untouched (s s' : Store) : Prop extends Store.SameFiles s s' where
  snapshotTmp : s'.snapshotTmp = s.snapshotTmp
  caches : s'.caches = s.caches

theorem Action.Ready.untouched {a : Action} (h : a.Ready s) (hsame : s.Untouched s') :
    a.Ready s' := by
  have hfiles := hsame.toSameFiles
  cases a with
  | readRows file =>
    cases file with
    | none => exact le_trans h hfiles.compacted.ge
    | some => simpa only [Ready, hfiles.files] using h
  | release => trivial
  | openLedger => trivial
  | _ =>
    simpa only [Ready, hfiles.committed, hfiles.compacted, hfiles.snapshot, hsame.snapshotTmp,
      hsame.caches] using h

/-! ## Rows of an append -/

namespace Store

variable (recordedAtMs : ℕ)

theorem numberRows_above (last : ℕ) (events : List (String × Event)) :
    ∀ r ∈ numberRows recordedAtMs last events, last < r.sequence := by
  induction events generalizing last with
  | nil => simp [numberRows]
  | cons _ _ ih =>
    intro r hr
    rcases mem_cons.mp hr with rfl | hr
    · exact Nat.lt_succ_self last
    · exact (Nat.lt_succ_self last).trans (ih (last + 1) r hr)

theorem numberRows_pairwise (last : ℕ) (events : List (String × Event)) :
    (numberRows recordedAtMs last events).Pairwise fun r r' => r.sequence < r'.sequence := by
  induction events generalizing last with
  | nil => exact .nil
  | cons event events ih =>
    refine pairwise_cons.mpr ⟨fun r hr => ?_, ih (last + 1)⟩
    exact numberRows_above recordedAtMs (last + 1) events r hr

theorem numberRows_ne_nil {recordedAtMs last : ℕ} {events : List (String × Event)}
    (h : events ≠ []) :
    numberRows recordedAtMs last events ≠ [] := by
  cases events with
  | nil => exact absurd rfl h
  | cons => simp [numberRows]

theorem Consistent.increasing_pending {s : Store} (hs : s.Consistent) {call : Append}
    {input : Input}
    (hlast : (s.caches call.store).lastSequence = highest LedgerRow.sequence s.committed)
    {written : List LedgerRow} (hpre : written <+: s.pendingRows call input) :
    Increasing LedgerRow.sequence (s.committed ++ written) := by
  refine hs.increasing.append ((numberRows_pairwise ..).sublist hpre.sublist) fun r hr => ?_
  rw [← hlast]
  exact numberRows_above _ _ _ r (hpre.subset hr)

/-! ## One step -/

/-- What is read at the step is there: the snapshot, unless no row has left the ledger, and whole
characters. -/
def readsSafely (s : Store) : Action → Bool
  | .readRows file _ => (file.bind fun i => s.files[i]?).all LedgerFile.isText
  | .readSnapshot _ _ | .writeSnapshotTmp _ => s.snapshotReadable
  | _ => true

/-- The call returned the fold of a prefix that has every row committed before it began. -/
def LoadsPrefix (s : Store) (load : Load) : Prop :=
  ∃ n, load.since ≤ n ∧ n ≤ s.committed.length ∧ load.result = .ok (foldRows (s.committed.take n))

theorem LoadsPrefix.grows {s s' : Store} {load : Load} (h : s.LoadsPrefix load)
    (hgrows : Grows s s') :
    s'.LoadsPrefix load := by
  obtain ⟨n, hsince, hn, hresult⟩ := h
  obtain ⟨new, hnew⟩ := hgrows.committed
  refine ⟨n, hsince, ?_, ?_⟩
  · rw [← hnew, length_append]
    omega
  · rw [hresult, ← hnew, take_append_of_le_length hn]

/-- What a step keeps and what it makes ready. -/
structure StepOk (s : Store) (a : Action) (s' : Store) (next : List Action) : Prop where
  consistent : s'.Consistent
  grows : Grows s s'
  untouched : a.holdsLock = false → s.Untouched s'
  ready : ∀ b ∈ next, b.Ready s'
  loads : ∀ load ∈ s'.loads, load ∈ s.loads ∨ s'.LoadsPrefix load

section

variable {text : LedgerRow → List Char} {input : Input} {s s' : Store} {next : List Action}
  {a : Action}

theorem StepOk.of_holdsLock (hs : s'.Consistent) (hgrows : Grows s s')
    (ha : a.holdsLock = true) (hloads : s'.loads = s.loads) (hready : ∀ b ∈ next, b.Ready s') :
    StepOk s a s' next where
  consistent := hs
  grows := hgrows
  untouched := fun h => by rw [ha] at h; cases h
  ready := hready
  loads := fun _ hload => .inl (hloads ▸ hload)

theorem StepOk.of_untouched (hs : s.Consistent) (hsame : s.Untouched s')
    (hloads : s'.loads = s.loads) (hready : ∀ b ∈ next, b.Ready s') : StepOk s a s' next where
  consistent := hs.of_sameFiles hsame.toSameFiles
  grows := hsame.toSameFiles.grows
  untouched := fun _ => hsame
  ready := hready
  loads := fun _ hload => .inl (hloads ▸ hload)

theorem Untouched.refl (s : Store) : s.Untouched s := ⟨SameFiles.refl s, rfl, rfl⟩

/-- What a step that is done keeps and what it makes ready. -/
abbrev PerformOk (text : LedgerRow → List Char) (input : Input) (s : Store) (a : Action) : Prop :=
  StepOk s a (s.perform text input a).1 (s.perform text input a).2

theorem stepOk_release (hs : s.Consistent) : StepOk s a s [.release] :=
  .of_untouched hs (Untouched.refl s) rfl (forall_mem_singleton.mpr trivial)

variable {call : Append}

theorem stepOk_acquire (hs : s.Consistent) (ha : (acquire call).Ready s) :
    PerformOk text input s (.acquire call) := by
  rw [PerformOk, perform]
  split_ifs
  · exact .of_untouched hs (Untouched.refl s) rfl (forall_mem_singleton.mpr ha)
  · exact .of_untouched hs ⟨⟨rfl, rfl, rfl, rfl⟩, rfl, rfl⟩ rfl (forall_mem_singleton.mpr ha)

theorem stepOk_refresh (hs : s.Consistent) (ha : (refresh call).Ready s) :
    PerformOk text input s (.refresh call) := by
  rw [PerformOk, perform]
  split_ifs
  · exact stepOk_release hs
  · split
    · exact stepOk_release hs
    · rename_i cache hcache
      obtain ⟨hlast, hpos⟩ := hs.refreshSeqCache_eq hcache
      have hsame : SameFiles s (s.setCache call.store cache) := ⟨rfl, rfl, rfl, rfl⟩
      refine .of_holdsLock (hs.of_sameFiles hsame) hsame.grows rfl rfl (forall_mem_singleton.mpr ?_)
      have hself : (s.setCache call.store cache).caches call.store = cache :=
        Function.update_self ..
      refine ⟨ha, ?_, ?_⟩
      · exact (congrArg SeqCache.lastSequence hself).trans hlast
      · intro hrows
        exact hpos (hself ▸ hrows)

theorem ready_compactOrRelease {cache : SeqCache}
    (h : 0 < cache.ledgerRows → s'.compacted < s'.committed.length) :
    ∀ b ∈ compactOrRelease call cache, b.Ready s' := by
  intro b hb
  rw [compactOrRelease] at hb
  split_ifs at hb with hrows
  · rw [mem_singleton.mp hb]
    exact h (hrows.1.trans_le hrows.2)
  · rw [mem_singleton.mp hb]
    trivial

section

variable (hs : s.Consistent)
include hs

theorem Consistent.stepOk_setLedger {call : Append}
    (hlast : (s.caches call.store).lastSequence = highest LedgerRow.sequence s.committed)
    {file : LedgerFile} {written : List LedgerRow} (hpre : written <+: s.pendingRows call input)
    (hrows : file.rows = s.openLedger.rows ++ written) (hstart : file.start = s.openLedger.start)
    (cache : SeqCache)
    (hready : ∀ b ∈ next, b.Ready ((s.setLedger file).setCache call.store cache)) :
    StepOk s (.write call) ((s.setLedger file).setCache call.store cache) next := by
  have hcons := hs.setLedger hstart hrows (hs.increasing_pending hlast hpre)
  have hgrows := hs.grows_setLedger hstart hrows
  exact .of_holdsLock (hcons.of_sameFiles ⟨rfl, rfl, rfl, rfl⟩)
    ⟨hgrows.committed, hgrows.compacted, hgrows.files⟩ rfl rfl hready

theorem stepOk_write {call : Append} (ha : (write call).Ready s) :
    PerformOk text input s (.write call) := by
  obtain ⟨hevents, hlast, -⟩ := ha
  have hrows := LedgerFile.rows_writeAllRows s.openLedger (s.pendingRows call input)
  refine hs.stepOk_setLedger hlast prefix_rfl hrows rfl _ (ready_compactOrRelease fun _ => ?_)
  -- The ledger now has the rows that were appended.
  have hcompacted : (s.setLedger (s.openLedger.writeAllRows (s.pendingRows call input))).compacted =
      s.compacted := compacted_setLedger rfl
  have hpos : 0 < (s.pendingRows call input).length :=
    length_pos_iff.mpr (numberRows_ne_nil hevents)
  have hle := hs.compacted_le
  show (s.setLedger _).compacted < (s.setLedger _).committed.length
  rw [hcompacted, committed_setLedger hrows, length_append]
  omega

variable {store since : ℕ}

theorem stepOk_writeSnapshotTmp (ha : (writeSnapshotTmp store).Ready s)
    (hreads : s.snapshotReadable) :
    PerformOk text input s (.writeSnapshotTmp store) := by
  rw [PerformOk, perform]
  split
  · exact stepOk_release hs
  · rename_i rows hrows
    rw [hs.loadState_ledger hreads hrows]
    have hsame : ∀ tmp, SameFiles s { s with snapshotTmp := tmp } := fun _ => ⟨rfl, rfl, rfl, rfl⟩
    refine .of_holdsLock (hs.of_sameFiles (hsame _)) (hsame _).grows rfl rfl
      (forall_mem_singleton.mpr ?_)
    refine ⟨ha, ?_⟩
    show some (Snapshot.mk (foldRows s.committed).lastSequence _) = _
    rw [lastSequence_foldRows]
    rfl

theorem stepOk_removeSnapshot (ha : (removeSnapshot store).Ready s) :
    PerformOk text input s (.removeSnapshot store) :=
  .of_holdsLock (hs.removeSnapshot ha.1)
    ⟨prefix_rfl, le_refl _, fun _ file hi => ⟨file, hi, rfl, le_refl _⟩⟩ rfl rfl
    (forall_mem_singleton.mpr ha.2)

theorem stepOk_renameSnapshot (ha : (renameSnapshot store).Ready s) :
    PerformOk text input s (.renameSnapshot store) := by
  have htmp : s.snapshotTmp = some (snapshotOf s.committed) := ha
  simp only [PerformOk, perform, htmp]
  exact .of_holdsLock (hs.installSnapshot none)
    ⟨prefix_rfl, le_refl _, fun _ file hi => ⟨file, hi, rfl, le_refl _⟩⟩ rfl rfl
    (forall_mem_singleton.mpr rfl)

theorem stepOk_rotate {lastSequence : ℕ} (ha : (rotate store lastSequence).Ready s) :
    PerformOk text input s (.rotate store lastSequence) := by
  have hgrows := hs.grows_rotate
  exact .of_holdsLock ((hs.rotate ha).of_sameFiles ⟨rfl, rfl, rfl, rfl⟩)
    ⟨hgrows.committed, hgrows.compacted, hgrows.files⟩ rfl rfl (forall_mem_singleton.mpr trivial)

theorem stepOk_openLedger : PerformOk text input s .openLedger := by
  rw [PerformOk, perform]
  refine .of_untouched hs (Untouched.refl s) rfl (forall_mem_singleton.mpr ?_)
  split_ifs with hlive
  · obtain ⟨last, hlast⟩ := Option.isSome_iff_exists.mp (hs.ledger_isSome hlive)
    have hrows := hs.ledger_rows last hlast
    rw [ledger, if_pos hlive] at hlast
    refine ⟨last, ?_, ?_⟩
    · rw [← getLast?_eq_getElem?]
      exact hlast
    · rw [hrows, length_drop]
      omega
  · rw [Action.Ready, compacted, ledger, if_neg hlive, Option.elim_none]

theorem stepOk_readRows {file : Option ℕ} (ha : (readRows file since).Ready s)
    (hreads : s.readsSafely (.readRows file since)) :
    PerformOk text input s (.readRows file since) := by
  cases file with
  | none =>
    refine .of_untouched hs (Untouched.refl s) rfl (forall_mem_singleton.mpr ?_)
    have hsince : since ≤ s.compacted := ha
    refine ⟨since, since, hsince, le_refl _, hsince.trans hs.compacted_le, ?_⟩
    exact (drop_eq_nil_of_le (by simp)).symm
  | some i =>
    obtain ⟨file, hi, hsince⟩ := ha
    have hbind : ((some i).bind fun i => s.files[i]?) = some file := hi
    have hmem : file ∈ s.files := mem_of_getElem? hi
    have hrows := hs.file_rows file hmem
    have htext : file.isText := by simpa [readsSafely, hbind] using hreads
    simp only [PerformOk, perform, hbind, if_pos htext]
    refine .of_untouched hs (Untouched.refl s) rfl (forall_mem_singleton.mpr ?_)
    have hlen := hrows.length_le
    have hstart := (hs.file_start file hmem).trans hs.compacted_le
    rw [length_drop] at hlen
    refine ⟨file.start, file.start + file.rows.length, hs.file_start file hmem,
      hsince, by omega, ?_⟩
    rw [drop_take, Nat.add_sub_cancel_left]
    exact prefix_iff_eq_take.mp hrows

theorem stepOk_readSnapshot {rows : List LedgerRow} (ha : (readSnapshot rows since).Ready s)
    (hreads : s.snapshotReadable) :
    PerformOk text input s (.readSnapshot rows since) := by
  obtain ⟨k, e, hk, hsince, he, rfl⟩ := ha
  obtain ⟨m, hm, hmn, hload⟩ := hs.loadState_eq hreads hk he
  have hsame :
      s.Untouched (s.perform text input (.readSnapshot ((s.committed.take e).drop k) since)).1 :=
    ⟨⟨rfl, rfl, rfl, rfl⟩, rfl, rfl⟩
  refine ⟨hs.of_sameFiles hsame.toSameFiles, hsame.toSameFiles.grows,
    fun _ => hsame, by simp [perform], ?_⟩
  intro load hmem
  rcases mem_append.mp hmem with hold | hnew
  · exact .inl hold
  · rw [mem_singleton.mp hnew]
    refine .inr ⟨m, hsince.trans hm, hmn, ?_⟩
    exact congrArg Except.ok hload

/-- **A step that is done keeps the files consistent and makes the next one ready.** -/
theorem stepOk_perform {a : Action} (ha : a.Ready s) (hreads : s.readsSafely a) :
    PerformOk text input s a := by
  cases a with
  | acquire => exact stepOk_acquire hs ha
  | refresh => exact stepOk_refresh hs ha
  | write => exact stepOk_write hs ha
  | writeSnapshotTmp => exact stepOk_writeSnapshotTmp hs ha hreads
  | removeSnapshot => exact stepOk_removeSnapshot hs ha
  | renameSnapshot => exact stepOk_renameSnapshot hs ha
  | removeRotated =>
    exact .of_untouched hs (Untouched.refl s) rfl (forall_mem_singleton.mpr ha)
  | rotate => exact stepOk_rotate hs ha
  | release => exact .of_untouched hs ⟨⟨rfl, rfl, rfl, rfl⟩, rfl, rfl⟩ rfl (by simp [perform])
  | openLedger => exact stepOk_openLedger hs
  | readRows => exact stepOk_readRows hs ha hreads
  | readSnapshot => exact stepOk_readSnapshot hs ha hreads

end

theorem mem_afterError {a b : Action} (ha : ∀ call, a ≠ .write call) (hb : b ∈ s.afterError a) :
    b = .release := by
  cases a with
  | write call => exact absurd rfl (ha call)
  | release => cases hb
  | acquire | openLedger | readRows | readSnapshot => cases hb
  | _ => exact mem_singleton.mp hb

theorem stepOk_interrupted (hs : s.Consistent) (ha : a.Ready s)
    (hnext : ∀ b ∈ next, b ∈ s.afterError a) : StepOk s a (s.interrupted text input a) next := by
  by_cases hwrite : ∃ call, a = .write call
  · obtain ⟨call, rfl⟩ := hwrite
    obtain ⟨-, hlast, hrows⟩ := ha
    obtain ⟨written, hpre, hfile, hstart⟩ :=
      LedgerFile.writeRowsSealed_spec text s.openLedger (s.pendingRows call input) input.bytes
    refine hs.stepOk_setLedger hlast hpre hfile hstart _ fun b hb => ?_
    have hmem := hnext b hb
    simp only [afterError] at hmem
    split_ifs at hmem
    · refine ready_compactOrRelease (fun hpos => ?_) b hmem
      -- There were rows before, and an append takes none away.
      have hcompacted := compacted_setLedger hstart
      have hcommitted := (hs.grows_setLedger hstart hfile).committed.length_le
      exact hcompacted.trans_lt ((hrows hpos).trans_le hcommitted)
    · rw [mem_singleton.mp hmem]
      trivial
  · have hne : ∀ call, a ≠ .write call := fun call h => hwrite ⟨call, h⟩
    have hsame : s.interrupted text input a = s := by
      cases a with
      | write call => exact absurd rfl (hne call)
      | _ => rfl
    rw [hsame]
    refine .of_untouched hs (Untouched.refl s) rfl fun b hb => ?_
    rw [mem_afterError hne (hnext b hb)]
    trivial

/-- **A step, done or ended early, keeps the files consistent and makes the next one ready.** -/
theorem stepOk_exec (hs : s.Consistent) (ha : a.Ready s)
    (hreads : input.fault = none → s.readsSafely a) :
    StepOk s a (s.exec text input a).1 ((s.exec text input a).2.getD []) := by
  rw [exec]
  split
  · rename_i hfault
    exact stepOk_perform hs ha (hreads hfault)
  · exact stepOk_interrupted hs ha fun b hb => hb
  · exact stepOk_interrupted hs ha nofun

end

/-! ## The lock -/

/-- One for a step under the lock. -/
def lockWeight (a : Action) : ℕ := if a.holdsLock then 1 else 0

section

variable {text : LedgerRow → List Char} {input : Input} {s : Store} (a : Action)

theorem locked_interrupted : (s.interrupted text input a).locked = s.locked := by
  cases a <;> rfl

theorem sum_afterError : ((s.afterError a).map lockWeight).sum ≤ lockWeight a := by
  cases a with
  | write =>
    simp only [afterError, compactOrRelease]
    split_ifs <;> exact le_refl 1
  | _ => simp [afterError, lockWeight, holdsLock]

theorem lock_perform :
    ((s.perform text input a).2.map lockWeight).sum + s.locked.toNat ≤
      (s.perform text input a).1.locked.toNat + lockWeight a := by
  -- A step that leaves the lock alone is followed by a step under it only if it is one.
  have hkeep : ∀ {s' : Store} {next : List Action}, s'.locked = s.locked →
      (next.map lockWeight).sum ≤ lockWeight a →
      (next.map lockWeight).sum + s.locked.toNat ≤ s'.locked.toNat + lockWeight a := by
    intro s' next hlocked hsum
    rw [hlocked]
    omega
  cases a with
  | acquire =>
    rw [perform]
    split_ifs with hlocked
    · exact hkeep rfl (le_refl 0)
    · rw [Bool.eq_false_iff.mpr hlocked]
      exact le_refl 1
  | release =>
    show 0 + s.locked.toNat ≤ 0 + 1
    have := Bool.toNat_le s.locked
    omega
  | refresh =>
    rw [perform]
    split_ifs
    · exact hkeep rfl (le_refl 1)
    · split <;> exact hkeep rfl (le_refl 1)
  | write =>
    simp only [perform, compactOrRelease]
    split_ifs <;> exact hkeep rfl (le_refl 1)
  | writeSnapshotTmp | renameSnapshot =>
    rw [perform]
    split <;> exact hkeep rfl (le_refl 1)
  | readRows =>
    rw [perform]
    split
    · exact hkeep rfl (le_refl 0)
    · split_ifs <;> exact hkeep rfl (le_refl 0)
  | removeSnapshot | removeRotated | rotate => exact hkeep rfl (le_refl 1)
  | openLedger | readSnapshot => exact hkeep rfl (le_refl 0)

theorem lock_exec :
    (((s.exec text input a).2.getD []).map lockWeight).sum + s.locked.toNat ≤
      (s.exec text input a).1.locked.toNat + lockWeight a := by
  rw [exec]
  split
  · exact lock_perform a
  · have hsum : ((s.afterError a).map lockWeight).sum ≤ lockWeight a := sum_afterError a
    rw [locked_interrupted, Option.getD_some]
    omega
  · rw [locked_interrupted]
    show 0 + s.locked.toNat ≤ _
    omega

end

end Store

/-! ## Runs -/

/-- No call has begun, and there are no files. -/
def initialPool : Pool Store Action := ⟨{}, []⟩

/-- A step that is done reads only what is there. -/
def safeMove (p : Pool Store Action) : Move Call Input → Bool
  | .spawn _ => true
  | .run i input => input.fault.isSome || (p.next i).all p.shared.readsSafely

variable {p : Pool Store Action} {i : ℕ} {input : Input}

theorem readsSafely_of_safeMove {a : Action} (h : safeMove p (.run i input))
    (hnext : p.next i = some a) (hfault : input.fault = none) : p.shared.readsSafely a := by
  simpa [safeMove, hnext, hfault] using h

/-- What holds along a run: the files are consistent, every step is ready, one call at most holds
the lock, and every load was the fold of a prefix. -/
structure PoolOk (p : Pool Store Action) : Prop where
  consistent : p.shared.Consistent
  ready : ∀ a ∈ p.acts, a.Ready p.shared
  lock : p.total Store.lockWeight ≤ p.shared.locked.toNat
  loads : ∀ load ∈ p.shared.loads, p.shared.LoadsPrefix load

variable {text : LedgerRow → List Char}

theorem PoolOk.spawn (hp : PoolOk p) (call : Call) :
    PoolOk (p.step Call.start (exec text) (.spawn call)) := by
  have hstart : ∀ a ∈ call.start, a.Ready p.shared ∧ a.holdsLock = false := by
    intro a ha
    cases call with
    | append =>
      rw [Call.start] at ha
      split_ifs at ha with hevents
      · cases ha
      · rw [mem_singleton.mp ha]
        exact ⟨fun h => hevents (List.isEmpty_iff.mpr h), rfl⟩
    | loadState =>
      rw [mem_singleton.mp ha]
      exact ⟨trivial, rfl⟩
  refine ⟨hp.consistent, fun a ha => ?_, ?_, hp.loads⟩
  · rcases Pool.mem_acts_spawn.mp ha with ha | ha
    · exact hp.ready a ha
    · exact (hstart a ha).1
  · rw [Pool.total_spawn]
    have hzero : (call.start.map lockWeight).sum = 0 := by
      refine List.sum_eq_zero fun n hn => ?_
      obtain ⟨a, ha, rfl⟩ := mem_map.mp hn
      rw [lockWeight, (hstart a ha).2]
      rfl
    rw [hzero]
    exact hp.lock

theorem PoolOk.run (hp : PoolOk p)
    {a : Action} (hnext : p.next i = some a) (hsafe : input.fault = none → p.shared.readsSafely a) :
    PoolOk (p.step Call.start (exec text) (.run i input)) := by
  have hstep : Store.StepOk p.shared a (p.shared.exec text input a).1
      ((p.shared.exec text input a).2.getD []) :=
    stepOk_exec hp.consistent (hp.ready a (Pool.mem_acts_of_next hnext)) hsafe
  obtain ⟨others, htotal, hothers, hacts⟩ := Pool.exists_others Call.start (exec text) input hnext
  have hshared : (p.step Call.start (exec text) (.run i input)).shared =
      (p.shared.exec text input a).1 := Pool.shared_run hnext
  refine ⟨?_, ?_, ?_, ?_⟩
  · rw [hshared]
    exact hstep.consistent
  · intro b hb
    rw [hshared]
    rcases hacts b hb with hb | hb
    · have hready := hp.ready b (hothers b hb)
      cases ha : a.holdsLock with
      | false => exact hready.untouched (hstep.untouched ha)
      | true =>
        -- The lock is held by this step, so the others are not under it.
        refine hready.grows hstep.grows ?_
        have hlock := hp.lock
        rw [htotal, lockWeight, ha] at hlock
        have hle : lockWeight b ≤ (others.map lockWeight).sum :=
          le_sum_of_mem (mem_map_of_mem hb)
        have hone := Bool.toNat_le p.shared.locked
        cases hb' : b.holdsLock with
        | false => rfl
        | true =>
          rw [lockWeight, hb'] at hle
          simp only [if_true] at hle hlock
          omega
    · exact hstep.ready b hb
  · rw [hshared]
    have hrun : (p.step Call.start (exec text) (.run i input)).total lockWeight +
        lockWeight a ≤ p.total lockWeight +
          (((p.shared.exec text input a).2.getD []).map lockWeight).sum :=
      Pool.total_run lockWeight hnext
    have hexec : (((p.shared.exec text input a).2.getD []).map lockWeight).sum +
        p.shared.locked.toNat ≤ (p.shared.exec text input a).1.locked.toNat + lockWeight a :=
      lock_exec a
    have hlock := hp.lock
    omega
  · intro load hload
    rw [hshared] at hload ⊢
    rcases hstep.loads load hload with hold | hnew
    · exact (hp.loads load hold).grows hstep.grows
    · exact hnew

/-- **Loads are folds of prefixes.** For any number of calls on any stores, in any interleaving of
their file operations and with any faults, in which reads are safe: the sequences of the committed
rows increase, and every call of `load_state` that has returned has returned the fold of a prefix of
the committed rows that has every row committed before the call opened the ledger. -/
theorem loads_are_prefixes (text : LedgerRow → List Char) (moves : List (Move Call Input))
    (h : Guarded (Pool.step Call.start (Store.exec text)) (fun p move => safeMove p move)
      initialPool moves) :
    (runSteps (Pool.step Call.start (Store.exec text)) initialPool moves).shared.committed.Pairwise
      (fun r r' => r.sequence < r'.sequence) ∧
    ∀ load ∈ (runSteps (Pool.step Call.start (Store.exec text)) initialPool moves).shared.loads,
      (runSteps (Pool.step Call.start (Store.exec text)) initialPool moves).shared.LoadsPrefix
        load := by
  have hinitial : PoolOk initialPool :=
    { consistent := Store.consistent_initial
      ready := fun _ ha => absurd ha not_mem_nil
      lock := le_refl 0
      loads := fun _ hload => absurd hload not_mem_nil }
  have hrun : PoolOk (runSteps (Pool.step Call.start (Store.exec text)) initialPool moves) :=
    Pool.invariant (P := PoolOk) (fun p call hp _ => hp.spawn call)
      (fun p i input a hp hnext hsafe => hp.run hnext (readsSafely_of_safeMove hsafe hnext))
        h hinitial
  exact ⟨hrun.consistent.increasing.pairwise, hrun.loads⟩

/-! ## Examples of runs -/

/-- `record_group_registered`, on a store that compacts after every append. -/
def registerGroup (groupId : String) : Call :=
  .append ⟨.single, 0, 1, [("group_registered:" ++ groupId, .groupRegistered (.new groupId 0))]⟩

/-- A run in which the text of a row is its event id. -/
def runWithIds (moves : List (Move Call Input)) : Pool Store Action :=
  runSteps (Pool.step Call.start (Store.exec fun r => r.eventId.toList)) initialPool moves

def Load.eventIds (load : Load) : Option (List String) :=
  load.result.toOption.map SupervisorState.appliedEventIds

/-- A step without a fault. -/
def smooth : Input := {}

/-- The second of two appends has written its row when a load opens the ledger; the load reads the
rows when the new snapshot is in place, and the snapshot when the ledger is rotated. A third append
is stopped inside its row, and another load follows. -/
def loadDuringCompaction : List (Move Call Input) :=
  let go (thread n : ℕ) : List (Move Call Input) := replicate n (.run thread smooth)
  Move.alone 0 (registerGroup "group-1") smooth 9 ++
    Move.alone 1 (registerGroup "group-2") smooth 3 ++
    Move.alone 2 .loadState smooth 1 ++ go 1 3 ++ go 2 1 ++ go 1 3 ++ go 2 1 ++
    Move.alone 3 (registerGroup "group-3") smooth 2 ++
    [.run 3 { fault := some .crash, bytes := 5 }] ++ Move.alone 4 .loadState smooth 3

theorem loads_are_prefixes_duringCompaction :
    (runWithIds loadDuringCompaction).shared.loads.map (·.eventIds) =
      replicate 2 (some ["group_registered:group-1", "group_registered:group-2"]) ∧
    ∀ load ∈ (runWithIds loadDuringCompaction).shared.loads,
      (runWithIds loadDuringCompaction).shared.LoadsPrefix load := by
  constructor
  · decide +kernel
  · exact (loads_are_prefixes (fun r => r.eventId.toList) loadDuringCompaction
      (by decide +kernel)).2

/-- Two groups are registered, and each append compacts the ledger; a load comes when the second
compaction has removed the first snapshot and not yet put the second one in its place. -/
def loadInWindow : List (Move Call Input) :=
  Move.alone 0 (registerGroup "group-1") smooth 9 ++
    Move.alone 1 (registerGroup "group-2") smooth 5 ++ Move.alone 2 .loadState smooth 3

/-- **A load misses compacted rows.** In the window the load finds no snapshot, and the ledger has
the second row only. -/
theorem load_misses_compacted_rows :
    ∃ load ∈ (runWithIds loadInWindow).shared.loads,
      ¬(runWithIds loadInWindow).shared.LoadsPrefix load := by
  have hloads :
      (runWithIds loadInWindow).shared.loads.map (fun load => (load.since, load.eventIds)) =
      [(2, some ["group_registered:group-2"])] := by decide +kernel
  have hlen : (runWithIds loadInWindow).shared.committed.length = 2 := by decide +kernel
  have hfold : (foldRows (runWithIds loadInWindow).shared.committed).appliedEventIds =
      ["group_registered:group-1", "group_registered:group-2"] := by decide +kernel
  obtain ⟨load, hmem, hload⟩ := mem_map.mp (hloads ▸ mem_singleton_self _)
  obtain ⟨hsince, hids⟩ := Prod.mk.inj hload
  refine ⟨load, hmem, ?_⟩
  -- The only prefix with both rows is the whole list.
  rintro ⟨n, hn, hle, hresult⟩
  rw [hsince] at hn
  rw [take_of_length_le (hlen ▸ hn)] at hresult
  rw [Load.eventIds, hresult] at hids
  have heq := Option.some.inj hids
  exact absurd heq (by decide)

theorem load_fails_on_cut_character :
    (runSteps (Pool.step Call.start (exec fun _ => ['é'])) initialPool
      (Move.alone 0 (registerGroup "group-1") smooth 2 ++
        [.run 0 { fault := some .crash, bytes := 1 }] ++
        Move.alone 1 .loadState smooth 2)).shared.loads.map (·.eventIds) = [none] := by
  decide +kernel

end Octos.Supervision
