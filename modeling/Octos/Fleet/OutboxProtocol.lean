import Octos.Fleet.Events

/-!
# The outbox protocol

The outbox delivers at least once: a consumer claims the first free event for a while and
acknowledges it with the token of its claim. Along every run the rows of the outbox are the events
appended so far, numbered from one in the order of their appends, and each row carries the claim
made of it last. From these two facts follow the guarantees of the protocol: nothing is lost or
altered but claims, and an event is acknowledged on behalf of its last claim only.

An event handed to `append_event` may carry a claim already. It is stored with it, and the first
acknowledgement may be one for that claim.

## Main results

* `OutboxStep.outboxBy`: every step of the outbox keeps `OutboxBy`
* `outbox_protocol`: the protocol over whole runs
-/

namespace Octos.Fleet

open FleetKernelStore List Option Table UInt64

/-! ## Keys and sequences -/

theorem outboxKey_lt (a b : UInt64) : outboxKey a < outboxKey b ↔ a < b := by
  have ha := a.toNat_lt
  have hb := b.toNat_lt
  rw [outboxKey, outboxKey, zeroPad_lt_zeroPad (by decide) (by omega) (by omega),
    lt_iff_toNat_lt]

theorem outboxKey_inj {a b : UInt64} : outboxKey a = outboxKey b ↔ a = b := by
  rw [outboxKey, outboxKey, zeroPad_inj, UInt64.toNat_inj]

/-- The sequence of the event at a position of the append order. -/
def seqAt (i : ℕ) : UInt64 := ofNat (i + 1)

theorem toNat_seqAt {i n : ℕ} (hi : i < n) (hn : n < 2 ^ 64) : (seqAt i).toNat = i + 1 := by
  rw [seqAt, toNat_ofNat']
  omega

theorem seqAt_inj {i j n : ℕ} (hi : i < n) (hj : j < n) (hn : n < 2 ^ 64)
    (h : seqAt i = seqAt j) : i = j := by
  have heq := congrArg toNat h
  rw [toNat_seqAt hi hn, toNat_seqAt hj hn] at heq
  omega

/-- The keys, sequences and bodies of the rows that hold the events. -/
def numbered (evs : List OutboxEvent) : List (String × UInt64 × OutboxEvent) :=
  evs.mapIdx fun i ev => (outboxKey (seqAt i), seqAt i, ev.body)

theorem numbered_snoc (evs : List OutboxEvent) (ev : OutboxEvent) :
    numbered (evs ++ [ev]) =
      numbered evs ++ [(outboxKey (seqAt evs.length), seqAt evs.length, ev.body)] := by
  simp [numbered, mapIdx_append]

/-! ## The outbox of a history -/

/-- The claim made last of the event. -/
def lastClaim (q : UInt64) (cls : List Claim) : Option Claim :=
  cls.reverse.find? (·.sequence = q)

theorem lastClaim_snoc (q : UInt64) (cls : List Claim) (cl : Claim) :
    lastClaim q (cls ++ [cl]) = if cl.sequence = q then some cl else lastClaim q cls := by
  by_cases hq : cl.sequence = q <;> simp [hq, lastClaim]

/-- The claim a row carries: the one made last of it, or the one it was appended with. -/
def holder (ev₀ : OutboxEvent) (last : Option Claim) : Option String × Option String :=
  match last with
  | some cl => (some cl.consumer, some cl.token)
  | none => (ev₀.claimedBy, ev₀.claimToken)

/-- The outbox holds the events, numbered in order, each with the claim made last of it. -/
structure OutboxBy (t : Table String OutboxEvent) (evs : List OutboxEvent) (cls : List Claim) :
    Prop where
  rows : t.entries.map (fun p => (p.1, p.2.sequence, p.2.body)) = numbered evs
  short : evs.length < 2 ^ 64
  current : ∀ k ev, t.get k = some ev → ev.schemaVersion = schemaVersion
  claims : ∀ k ev, t.get k = some ev → ∀ i ev₀, evs[i]? = some ev₀ → ev.sequence = seqAt i →
    (ev.claimedBy, ev.claimToken) = holder ev₀ (lastClaim ev.sequence cls)
  made : ∀ cl ∈ cls, cl.sequence.toNat ≤ evs.length

variable {t t' : Table String OutboxEvent} {evs : List OutboxEvent} {cls : List Claim}
  {ev : OutboxEvent}

theorem OutboxBy.empty : OutboxBy empty [] [] := by
  exact ⟨rfl, by decide, by simp, by simp, by simp⟩

section

variable (h : OutboxBy t evs cls)
include h

variable {k : String}

theorem OutboxBy.row (hev : t.get k = some ev) :
    ∃ i ev₀, evs[i]? = some ev₀ ∧ k = outboxKey ev.sequence ∧ ev.sequence = seqAt i ∧
      ev.body = ev₀.body := by
  have hmem : (k, ev.sequence, ev.body) ∈ numbered evs := by
    rw [← h.rows]
    exact mem_map.mpr ⟨(k, ev), mem_entries.mpr hev, rfl⟩
  obtain ⟨i, hi, heq⟩ := mem_mapIdx.mp hmem
  simp only [Prod.mk.injEq] at heq
  obtain ⟨hk, hseq, hbody⟩ := heq
  exact ⟨i, evs[i], getElem?_eq_getElem hi, by rw [← hk, hseq], hseq.symm, hbody.symm⟩

theorem OutboxBy.sequence_le (hev : t.get k = some ev) : ev.sequence.toNat ≤ evs.length := by
  obtain ⟨i, ev₀, hi, -, hseq, -⟩ := h.row hev
  have hlt := (List.getElem?_eq_some_iff.mp hi).1
  rw [hseq, toNat_seqAt hlt h.short]
  omega

theorem OutboxBy.get_key (hev : t.get k = some ev) : t.get (outboxKey ev.sequence) = some ev := by
  obtain ⟨i, ev₀, -, hk, -⟩ := h.row hev
  rw [← hk, hev]

theorem OutboxBy.nextSequence_eq :
    nextSequence t = if evs.length + 1 < 2 ^ 64 then .ok (seqAt evs.length)
      else .error .outboxSequenceOverflow := by
  have hlast : t.last.map (·.1) = (numbered evs).getLast?.map (·.1) := by
    rw [← h.rows, last, getLast?_map, Option.map_map]
    rfl
  unfold nextSequence
  rcases eq_nil_or_concat evs with rfl | ⟨evs', ev, rfl⟩
  · -- nothing was appended yet
    cases hl : t.last with
    | none => rfl
    | some p =>
      rw [hl] at hlast
      cases hlast
  · -- The greatest key is that of the last event.
    rw [concat_eq_append] at h hlast ⊢
    rw [numbered_snoc, getLast?_concat] at hlast
    cases hl : t.last with
    | none =>
      rw [hl] at hlast
      cases hlast
    | some p =>
      obtain ⟨k, row⟩ := p
      rw [hl] at hlast
      obtain rfl : k = outboxKey (seqAt evs'.length) := some.inj hlast
      have hshort := h.short
      rw [length_append, length_singleton] at hshort ⊢
      have hn : (seqAt evs'.length).toNat = evs'.length + 1 :=
        toNat_seqAt (Nat.lt_succ_self _) hshort
      have hparse : parseU64 (outboxKey (seqAt evs'.length)) = some (seqAt evs'.length) :=
        parseU64_zeroPad ..
      change (orError (parseU64 _) _ >>= _) = _
      rw [hparse]
      split_ifs with hlen
      · refine orError_eq_ok.mpr (checkedAdd_eq_some.mpr ?_)
        rw [toNat_seqAt (Nat.lt_succ_self _) hlen, hn]
        rfl
      · refine orError_eq_error.mpr ⟨checkedAdd_eq_none.mpr ?_, rfl⟩
        have hone : (1 : UInt64).toNat = 1 := rfl
        omega

theorem OutboxBy.seq_of_nextSequence {seq : UInt64} (hseq : nextSequence t = .ok seq) :
    seq = seqAt evs.length ∧ evs.length + 1 < 2 ^ 64 := by
  rw [h.nextSequence_eq] at hseq
  split_ifs at hseq with hlen
  exact ⟨(Except.ok.inj hseq).symm, hlen⟩

theorem OutboxBy.rows_rewrite {ev' : OutboxEvent} (hev : t.get k = some ev)
    (hseq : ev'.sequence = ev.sequence) (hbody : ev'.body = ev.body) :
    (t.insert k ev').entries.map (fun p => (p.1, p.2.sequence, p.2.body)) = numbered evs := by
  rw [← h.rows]
  exact map_entries_insert_old (fun ev => (ev.sequence, ev.body)) hev (by rw [hseq, hbody])

variable {app : Option OutboxEvent} {cl : Option Claim}

/-- **Every step of the outbox extends its history** by the event it appends and the claim it
makes. -/
theorem OutboxStep.outboxBy
    (hs : OutboxStep t app cl t') : OutboxBy t' (evs ++ app.toList) (cls ++ cl.toList) := by
  cases hs with
  | idle => simpa using h
  | @append ev seq hnext =>
    obtain ⟨rfl, hlen⟩ := h.seq_of_nextSequence hnext
    have hq : (seqAt evs.length).toNat = evs.length + 1 :=
      toNat_seqAt (Nat.lt_succ_self _) hlen
    rw [toList_some, toList_none, append_nil]
    refine ⟨?_, by simpa using hlen, ?_, ?_, ?_⟩
    · rw [entries_insert_of_forall_lt, map_append, h.rows, numbered_snoc]
      · rfl
      · -- the sequences before are smaller
        intro p hp
        obtain ⟨i, ev₀, -, hk, -⟩ := h.row (mem_entries.mp hp)
        rw [hk, outboxKey_lt, lt_iff_toNat_lt, hq]
        exact Nat.lt_succ_of_le (h.sequence_le (mem_entries.mp hp))
    · exact forall_insert (fun k ev _ hev => h.current k ev hev) rfl
    · refine forall_insert (fun k row _ hrow => ?_) ?_
      · intro i ev₀ hi hseq
        obtain ⟨j, ev₁, hj, -, hseq', -⟩ := h.row hrow
        have hj' := (List.getElem?_eq_some_iff.mp hj).1
        have hi' := (List.getElem?_eq_some_iff.mp hi).1
        obtain rfl := seqAt_inj hi' (hj'.trans (by simp)) (by simpa using hlen)
          (hseq.symm.trans hseq')
        rw [getElem?_append_left hj'] at hi
        exact h.claims k row hrow i ev₀ hi hseq
      · -- no claim was made of the new event
        intro i ev₀ hi hseq
        have hi' := (List.getElem?_eq_some_iff.mp hi).1
        obtain rfl : evs.length = i := seqAt_inj (by simp) hi' (by simpa using hlen) hseq
        have hnone : lastClaim (seqAt evs.length) cls = none := by
          rw [lastClaim, find?_eq_none]
          intro cl hcl
          have hle := h.made cl (mem_reverse.mp hcl)
          intro heq
          rw [of_decide_eq_true heq, hq] at hle
          omega
        change (ev.claimedBy, ev.claimToken) = holder ev₀ (lastClaim (seqAt evs.length) cls)
        rw [hnone]
        have hev : ev = ev₀ := by simpa using hi
        rw [hev]
        rfl
    · intro cl hcl
      have hle := h.made cl hcl
      rw [length_append]
      omega
  | @claim k ev now expires consumer token hfind =>
    have hev := mem_entries.mp (mem_of_find?_eq_some hfind)
    rw [toList_some, toList_none, append_nil]
    refine ⟨h.rows_rewrite hev rfl rfl, h.short, ?_, ?_, ?_⟩
    · exact forall_insert (fun k ev _ hev => h.current k ev hev) (h.current k ev hev)
    · refine forall_insert (fun k' row hk' hrow => ?_) ?_
      · -- another row has another sequence
        intro i ev₀ hi hseq
        rw [lastClaim_snoc, if_neg]
        · exact h.claims k' row hrow i ev₀ hi hseq
        · intro heq
          obtain ⟨_, _, -, hk, -⟩ := h.row hev
          obtain ⟨_, _, -, hk₁, -⟩ := h.row hrow
          exact hk' (by rw [hk₁, ← heq, ← hk])
      · intro i ev₀ _ _
        change (some consumer, some token) = holder ev₀ (lastClaim ev.sequence _)
        rw [lastClaim_snoc, if_pos rfl]
        rfl
    · intro cl hcl
      rcases mem_append.mp hcl with hcl | hcl
      · exact h.made cl hcl
      · rw [mem_singleton.mp hcl]
        exact h.sequence_le hev
  | @ack seq ev consumer token hev _ _ =>
    rw [toList_none, toList_none, append_nil, append_nil]
    refine ⟨h.rows_rewrite hev rfl rfl, h.short, ?_, ?_, h.made⟩
    · exact forall_insert (fun k ev _ hev => h.current k ev hev) (h.current _ ev hev)
    · exact forall_insert (fun k row _ hrow => h.claims k row hrow) (h.claims _ ev hev)

/-! ## Acknowledged events -/

theorem OutboxStep.acked_stays
    (hs : OutboxStep t app cl t') (hev : t.get k = some ev) (hack : ev.acked = true) :
    t'.get k = some ev := by
  cases hs with
  | idle => exact hev
  | @append ev₁ seq hnext =>
    rw [get_insert_of_ne, hev]
    rintro rfl
    -- the key of an append is not in use
    obtain ⟨rfl, hlen⟩ := h.seq_of_nextSequence hnext
    obtain ⟨i, ev₀, -, hk, -⟩ := h.row hev
    have hle := h.sequence_le hev
    rw [← outboxKey_inj.mp hk, toNat_seqAt (Nat.lt_succ_self _) hlen] at hle
    omega
  | @claim k₁ ev₁ now expires consumer token hfind =>
    rw [get_insert_of_ne, hev]
    rintro rfl
    -- a claimed event was not acknowledged
    have hev₁ := mem_entries.mp (mem_of_find?_eq_some hfind)
    cases hev.symm.trans hev₁
    have hfree := find?_some hfind
    unfold OutboxEvent.claimable at hfree
    cases hdec : decodeRow ev with
    | none =>
      rw [hdec] at hfree
      cases hfree
    | some ev₂ =>
      obtain ⟨-, rfl⟩ := decodeRow_eq_some.mp hdec
      simp [hdec, hack] at hfree
  | @ack seq ev₁ consumer token hev₁ _ _ =>
    by_cases hk : k = outboxKey seq
    · subst hk
      cases hev.symm.trans hev₁
      rw [get_insert_self, ← hack]
    · rw [get_insert_of_ne _ _ hk, hev]

end

/-! ## Claims -/

def OutboxEvent.UnderClaim (ev : OutboxEvent) (now : UInt64) : Prop :=
  ev.claimedBy.isSome ∧ ∃ e, ev.claimExpiresAt = some e ∧ now ≤ e

/-- The event may be claimed: it is neither acknowledged nor under an unexpired claim. -/
def OutboxEvent.Free (ev : OutboxEvent) (now : UInt64) : Prop :=
  ev.acked = false ∧ ¬ ev.UnderClaim now

theorem claimable_iff (hver : ev.schemaVersion = schemaVersion) (now : UInt64) :
    ev.claimable now = true ↔ ev.Free now := by
  have hdec : decodeRow ev = some ev := decodeRow_eq_some.mpr ⟨hver ▸ UInt32.le_refl _, rfl⟩
  unfold OutboxEvent.claimable OutboxEvent.Free OutboxEvent.UnderClaim OutboxEvent.claimFree
  rw [hdec]
  cases hby : ev.claimedBy <;> cases hexp : ev.claimExpiresAt <;> simp [hby, hexp]

variable {s : FleetKernelStore}

/-- What `claim_next` does: nothing when no event is free; else it claims the free event with the
lowest number and changes nothing but the claim of its row, or errs if the expiry of the claim
leaves its range. -/
def ClaimsFirstFree (s : FleetKernelStore) (consumer token : String) (now ttl : UInt64) : Prop :=
  (s.claimNext consumer now ttl token = .ok (s, none) ∧
    ∀ k ev, s.outbox.get k = some ev → ¬ ev.Free now) ∨
  ∃ ev, s.outbox.get (outboxKey ev.sequence) = some ev ∧ ev.Free now ∧
    (∀ k ev', s.outbox.get k = some ev' → ev'.Free now → ev.sequence ≤ ev'.sequence) ∧
    let claimed := ev.claimedFor consumer token (now + ttl)
    s.claimNext consumer now ttl token =
      if now.toNat + ttl.toNat < 2 ^ 64 then
        .ok ({ s with outbox := s.outbox.insert (outboxKey ev.sequence) claimed }, some claimed)
      else .error .claimExpiryOverflow

/-- **A claim takes the first free event.** -/
theorem claimNext_spec (h : OutboxBy s.outbox evs cls) (consumer token : String)
    (now ttl : UInt64) : ClaimsFirstFree s consumer token now ttl := by
  cases hfind : s.outbox.entries.find? fun p => p.2.claimable now with
  | none =>
    refine .inl ⟨?_, fun k ev hev hfree => ?_⟩
    · rw [claimNext, hfind]
      rfl
    · have hno := find?_eq_none.mp hfind (k, ev) (mem_entries.mpr hev)
      exact hno ((claimable_iff (h.current k ev hev) now).mpr hfree)
  | some p =>
    obtain ⟨k, ev⟩ := p
    have hev := mem_entries.mp (mem_of_find?_eq_some hfind)
    obtain ⟨_, _, -, hk, -⟩ := h.row hev
    refine .inr ⟨ev, h.get_key hev, ?_, ?_, ?_⟩
    · have hfree := find?_some hfind
      exact (claimable_iff (h.current k ev hev) now).mp hfree
    · -- the rows before the found one are not free, those after it have larger keys
      intro k' ev' hev' hfree
      obtain ⟨-, before, after, hsplit, hno⟩ := find?_eq_some_iff_append.mp hfind
      have hmem := mem_entries.mpr hev'
      rw [hsplit] at hmem
      rcases mem_append.mp hmem with hbefore | hafter
      · have hnot := hno _ hbefore
        rw [(claimable_iff (h.current k' ev' hev') now).mpr hfree] at hnot
        cases hnot
      · rcases mem_cons.mp hafter with heq | hafter
        · cases heq
          exact UInt64.le_refl _
        · have hsorted := s.outbox.sorted
          rw [hsplit, pairwise_append] at hsorted
          have hlt := (pairwise_cons.mp hsorted.2.1).1 _ hafter
          obtain ⟨_, _, -, hk', -⟩ := h.row hev'
          rw [hk, hk', outboxKey_lt] at hlt
          exact UInt64.le_of_lt hlt
    · rw [claimNext, hfind, ← hk]
      dsimp only
      rw [checkedAdd]
      split_ifs
      · rfl
      · rfl

theorem ack_spec {s s' : FleetKernelStore} {q : UInt64} {consumer token : String}
    (hok : s.ack q consumer token = .ok (s', .acked)) :
    ∃ ev, s.outbox.get (outboxKey q) = some ev ∧ ev.claimedBy = some consumer ∧
      ev.claimToken = some token ∧
      s'.outbox = s.outbox.insert (outboxKey q) { ev with acked := true } := by
  obtain ⟨ev, hget, hok⟩ := bind_eq_ok.mp hok
  obtain ⟨_, hdec, hok⟩ := bind_eq_ok.mp hok
  obtain ⟨-, rfl⟩ := decodeRow_eq_some.mp (orError_eq_ok.mp hdec)
  split_ifs at hok with hclaim
  · cases hok
    exact ⟨ev, orError_eq_ok.mp hget, hclaim.1, hclaim.2, rfl⟩
  · cases hok

/-! ## Whole runs -/

def appended (ops : List Op) : List OutboxEvent := outputs Op.exec Op.appends .empty ops

def claimed (ops : List Op) : List Claim := outputs Op.exec Op.claims .empty ops

/-- **The outbox of a run** holds the appended events, each with its last claim. -/
theorem outboxBy_run {ops : List Op} (hd : MintsDistinct ops) :
    OutboxBy (run ops).outbox (appended ops) (claimed ops) := by
  refine ((guarded_fresh hd).induction_snoc (P := fun ops => KernelInv (run ops) ∧
    OutboxBy (run ops).outbox (appended ops) (claimed ops)) ⟨.empty, .empty⟩
    fun ops op ih hfresh => ?_).2
  obtain ⟨hinv, hout⟩ := ih
  rw [run_snoc, appended, claimed, outputs_snoc, outputs_snoc]
  exact ⟨Op.exec_inv hinv hfresh, (Op.outboxStep hinv hfresh).outboxBy hout⟩

theorem acked_stays_run {pre post : List Op} (hd : MintsDistinct (pre ++ post)) {k : String}
    (hev : (run pre).outbox.get k = some ev) (hack : ev.acked = true) :
    (run (pre ++ post)).outbox.get k = some ev := by
  obtain ⟨hpre, hpost⟩ := (guarded_append ..).mp (guarded_fresh hd)
  have hd' := mintsDistinct_of_append hd
  rw [run_append]
  refine (hpost.invariant (P := fun t => (KernelInv t ∧ ∃ evs cls, OutboxBy t.outbox evs cls) ∧
    t.outbox.get k = some ev) (fun t op ht hfresh => ?_)
    ⟨⟨run_inv hd', _, _, outboxBy_run hd'⟩, hev⟩).2
  obtain ⟨⟨hinv, evs, cls, hout⟩, hrow⟩ := ht
  have hstep := Op.outboxStep hinv hfresh
  exact ⟨⟨Op.exec_inv hinv hfresh, _, _, hstep.outboxBy hout⟩, hstep.acked_stays hout hrow hack⟩

theorem Op.claims_not_acked (h : OutboxBy s.outbox evs cls) {op : Op}
    {cl : Claim} (hcl : op.claims s = some cl) :
    ∃ ev, s.outbox.get (outboxKey cl.sequence) = some ev ∧ ev.acked = false := by
  cases op with
  | claimNext _ now =>
    simp only [Op.claims] at hcl
    split at hcl
    · rename_i s' ev' hok
      cases hcl
      unfold FleetKernelStore.claimNext at hok
      split at hok
      · rename_i k ev hfind
        obtain ⟨expires, -, hok⟩ := bind_eq_ok.mp hok
        cases hok
        have hev := mem_entries.mp (mem_of_find?_eq_some hfind)
        have hfree := find?_some hfind
        exact ⟨ev, h.get_key hev, ((claimable_iff (h.current k ev hev) now).mp hfree).1⟩
      · cases hok
    · cases hcl
  | _ => cases hcl

/-- **The outbox protocol.** Along every run with distinct minted attempt ids:
the rows of the outbox are the events appended so far, numbered from one in the order of their
appends and unaltered but for their claims, and the order of the keys is that of the numbers;
`claim_next` claims the event with the lowest number that is neither acknowledged nor under an
unexpired claim; an acknowledged event never changes and is never claimed again; and an
acknowledgement succeeds only for the consumer and the token of the claim made last of the event or,
if none was made, of the claim it was appended with.
Two acknowledgements of an event that succeed are by one consumer with one token. -/
theorem outbox_protocol {ops : List Op} (hd : MintsDistinct ops) :
    ((run ops).outbox.entries.map (fun p => (p.1, p.2.sequence, p.2.body)) =
        numbered (appended ops) ∧
      (∀ i j, i < j → j < (appended ops).length → seqAt i < seqAt j) ∧
      (∀ a b, outboxKey a < outboxKey b ↔ a < b) ∧
      ∀ pre post, ops = pre ++ post → appended pre <+: appended ops) ∧
    (∀ consumer token now ttl, ClaimsFirstFree (run ops) consumer token now ttl) ∧
    (∀ pre post k ev, ops = pre ++ post → (run pre).outbox.get k = some ev → ev.acked = true →
      (run ops).outbox.get k = some ev ∧
      ∀ (op : Op) (cl : Claim), op.claims (run ops) = some cl → cl.sequence ≠ ev.sequence) ∧
    (∀ q consumer token s', (run ops).ack q consumer token = .ok (s', .acked) →
      (∃ cl, lastClaim q (claimed ops) = some cl ∧ cl.consumer = consumer ∧ cl.token = token) ∨
      (lastClaim q (claimed ops) = none ∧ ∃ i ev₀, (appended ops)[i]? = some ev₀ ∧
        seqAt i = q ∧ ev₀.claimedBy = some consumer ∧ ev₀.claimToken = some token)) ∧
    ∀ pre post q consumer token consumer' token' s₁ s₂,
      ops = pre ++ .ack q consumer token :: post →
      (run pre).ack q consumer token = .ok (s₁, .acked) →
      (run ops).ack q consumer' token' = .ok (s₂, .acked) →
      consumer' = consumer ∧ token' = token := by
  have hout := outboxBy_run hd
  refine ⟨⟨hout.rows, ?_, outboxKey_lt, ?_⟩, ?_, ?_, ?_, ?_⟩
  · intro i j hij hj
    rw [lt_iff_toNat_lt, toNat_seqAt (hij.trans hj) hout.short, toNat_seqAt hj hout.short]
    omega
  · rintro pre post rfl
    rw [appended, appended, outputs_append]
    exact prefix_append ..
  · exact claimNext_spec hout
  · rintro pre post k ev rfl hev hack
    have hrow := acked_stays_run hd hev hack
    refine ⟨hrow, fun op cl hcl hseq => ?_⟩
    obtain ⟨ev₁, hev₁, hno⟩ := Op.claims_not_acked hout hcl
    rw [hseq, hout.get_key hrow] at hev₁
    cases hev₁
    rw [hack] at hno
    cases hno
  · intro q consumer token s' hok
    obtain ⟨ev, hev, hby, htoken, -⟩ := ack_spec hok
    obtain ⟨i, ev₀, hi, hk, hseq, -⟩ := hout.row hev
    obtain rfl := outboxKey_inj.mp hk
    have hclaim := hout.claims _ ev hev i ev₀ hi hseq
    rw [hby, htoken] at hclaim
    cases hlast : lastClaim ev.sequence (claimed ops) with rw [hlast] at hclaim
    | some cl =>
      simp only [holder, Prod.mk.injEq, some.injEq] at hclaim
      exact .inl ⟨cl, rfl, hclaim.1.symm, hclaim.2.symm⟩
    | none =>
      simp only [holder, Prod.mk.injEq] at hclaim
      exact .inr ⟨rfl, i, ev₀, hi, hseq.symm, hclaim.1.symm, hclaim.2.symm⟩
  · rintro pre post q consumer token consumer' token' s₁ s₂ rfl hok₁ hok₂
    -- after the first acknowledgement the row stays as it is
    obtain ⟨ev, hev, hby, htoken, hout₁⟩ := ack_spec hok₁
    have hexec : run (pre ++ [.ack q consumer token]) = s₁ := by
      rw [run_snoc]
      apply Op.exec_eq_of_perform
      rw [Op.perform, hok₁]
      rfl
    have hrow : (run (pre ++ [.ack q consumer token])).outbox.get (outboxKey q) =
        some { ev with acked := true } := by
      rw [hexec, hout₁, Table.get_insert_self]
    rw [append_cons] at hd hok₂
    have hlater := acked_stays_run hd hrow rfl
    obtain ⟨ev₂, hev₂, hby₂, htoken₂, -⟩ := ack_spec hok₂
    cases hlater.symm.trans hev₂
    exact ⟨some.inj (hby₂.symm.trans hby), some.inj (htoken₂.symm.trans htoken)⟩

/-- An event of the store, claimed and acknowledged by one consumer. -/
def claimedAndAcked : List Op :=
  [.appendEvent (outboxEvent .fleetDrained "e" "f" none none), .claimNext "x" 10 5 "t",
    .ack 1 "x" "t"]

/-- The acknowledged event is not claimed again, however late. -/
theorem outbox_protocol_claimedAndAcked :
    claimed claimedAndAcked = [⟨1, "x", "t"⟩] ∧
    (run claimedAndAcked).outbox.values.map (fun ev => (ev.sequence, ev.acked)) = [(1, true)] ∧
    ∀ consumer token now ttl, ClaimsFirstFree (run claimedAndAcked) consumer token now ttl :=
  ⟨by decide, by decide, (outbox_protocol (by decide)).2.1⟩

/-- An event that a caller hands over with a claim on it. -/
def preclaimedEvent : OutboxEvent :=
  { outboxEvent .fleetDrained "e" "f" none none with
    claimedBy := some "x", claimToken := some "t" }

/-- An acknowledgement succeeds though no claim was ever made, for the claim the event was handed
over with; and a free event is not returned when the expiry of its claim overflows. -/
theorem ack_without_claim :
    claimed [.appendEvent preclaimedEvent] = [] ∧
    ((run [.appendEvent preclaimedEvent]).ack 1 "x" "t").toOption.map (·.2) = some .acked ∧
    ((run [.appendEvent (outboxEvent .fleetDrained "e" "f" none none)]).outbox.values.map
      fun ev => (ev.sequence, ev.acked, ev.claimedBy)) = [(1, false, none)] ∧
    ((run [.appendEvent (outboxEvent .fleetDrained "e" "f" none none)]).claimNext "x"
      18446744073709551615 1 "t").toOption.map (·.2) = none := by
  decide

end Octos.Fleet
