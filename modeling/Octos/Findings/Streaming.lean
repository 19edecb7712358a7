import Octos.Findings.Digest

/-!
# Streaming the finding log through digests

A controller reads the log by asking for digests, each from the watermark of the one before, until
the watermark stands still. A cut never empties a section, so trimming a view touches one section
only, the first that is not empty. Where that is an aggregate, both streams arrive whole with the
first call. Where it is the new findings, no edge is pending and the findings arrive in pieces.
Where it is the overturn edges, the newest edges are cut off while every newer finding is delivered,
and the watermark passes the edges that were cut.

## Main results

* `streams_exists`: the calls come to an end
* `digest_stream_lossless`: when streaming is lossless
-/

namespace Octos.Findings

open List

/-! ## Trimming touches one section -/

/-- A section that ranks before the streams is not empty. -/
def Digest.Fronted (d : Digest) : Prop :=
  d.costByPath ≠ [] ∨ d.clusterHints ≠ [] ∨ d.stale ≠ []

theorem keep_pos {n : ℕ} (h : 0 < n) : 0 < keep n := by
  unfold keep
  split_ifs
  · exact Nat.one_pos
  · omega

variable {α : Type} {u v l : List α}

/-- The first items of a list, at least one if it has any. -/
def Heads (v l : List α) : Prop :=
  ∃ k, v = l.take k ∧ (l ≠ [] → 0 < k)

theorem Heads.refl (l : List α) : Heads l l :=
  ⟨l.length, take_length.symm, length_pos_iff.mpr⟩

theorem Heads.eq_nil (h : Heads v l) (hv : v = []) : l = [] := by
  obtain ⟨k, rfl, hk⟩ := h
  by_contra hne
  exact (take_eq_nil_iff.mp hv).elim (Nat.ne_of_gt (hk hne)) hne

theorem Heads.trans (h : Heads u v) (h' : Heads v l) : Heads u l := by
  have hne := mt h'.eq_nil
  obtain ⟨k, rfl, hk⟩ := h
  obtain ⟨k', rfl, hk'⟩ := h'
  exact ⟨min k k', take_take, fun hl => lt_min (hk (hne hl)) (hk' hl)⟩

theorem heads_cut (v : List α) (name : String) (dropped : List Dropped) :
    Heads (cut v name dropped).1 v := by
  unfold cut
  split_ifs
  · exact .refl v
  · exact ⟨_, rfl, fun hv => keep_pos (length_pos_iff.mpr hv)⟩

variable {d d' : Digest} {findings : List Finding} {opts : DigestOptions} {since : UInt64}

theorem heads_cutFirst (hcut : d.cutFirst = some d') :
    Heads d'.newFindings d.newFindings ∧ Heads d'.overturns d.overturns := by
  unfold Digest.cutFirst at hcut
  split_ifs at hcut <;> cases hcut
  · exact ⟨.refl _, .refl _⟩
  · exact ⟨.refl _, .refl _⟩
  · exact ⟨.refl _, .refl _⟩
  · exact ⟨.refl _, heads_cut ..⟩
  · exact ⟨heads_cut .., .refl _⟩

theorem cutFirst_of_fronted (h : d.Fronted) (hcut : d.cutFirst = some d') :
    d'.Fronted ∧ d'.newFindings = d.newFindings ∧ d'.overturns = d.overturns := by
  unfold Digest.cutFirst at hcut
  split_ifs at hcut with h₁ h₂ h₃ h₄ h₅ <;> cases hcut
  · exact ⟨.inl (mt (heads_cut ..).eq_nil h₁), rfl, rfl⟩
  · exact ⟨.inr (.inl (mt (heads_cut ..).eq_nil h₂)), rfl, rfl⟩
  · exact ⟨.inr (.inr (mt (heads_cut ..).eq_nil h₃)), rfl, rfl⟩
  all_goals
    rcases h with h | h | h
    exacts [absurd h h₁, absurd h h₂, absurd h h₃]

theorem cutFirst_of_overturns (h : ¬ d.Fronted) (he : d.overturns ≠ [])
    (hcut : d.cutFirst = some d') :
    ¬ d'.Fronted ∧ d'.newFindings = d.newFindings ∧
      d'.overturns = d.overturns.take (keep d.overturns.length) := by
  simp only [Digest.Fronted, not_or, not_not] at h
  obtain ⟨h₁, h₂, h₃⟩ := h
  simp only [Digest.cutFirst, h₁, h₂, h₃, he, ne_eq, not_true_eq_false, if_false,
    not_false_eq_true, if_true] at hcut
  cases hcut
  refine ⟨?_, rfl, ?_⟩
  · simp [Digest.Fronted]
  · simp [cut, he]

/-- What every cut keeps holds when the loop ends. -/
theorem enforceLoop_induction {P : Digest → Prop}
    (hstep : ∀ d d', P d → d.cutFirst = some d' → P d') (maxChars passes : ℕ) (hd : P d) :
    P (enforceLoop maxChars passes d) := by
  induction passes generalizing d with
  | zero => exact hd
  | succ passes ih =>
    rw [enforceLoop]
    split_ifs
    · exact hd
    · cases hcut : d.cutFirst with
      | none => exact hd
      | some d' =>
        dsimp only
        split_ifs
        exacts [hstep d d' hd hcut, ih (hstep d d' hd hcut)]

variable (maxChars passes : ℕ)

theorem enforceLoop_of_fronted (h : d.Fronted) :
    (enforceLoop maxChars passes d).newFindings = d.newFindings ∧
      (enforceLoop maxChars passes d).overturns = d.overturns := by
  refine (enforceLoop_induction
    (P := fun e => e.Fronted ∧ e.newFindings = d.newFindings ∧ e.overturns = d.overturns)
    (fun e e' he hcut => ?_) maxChars passes ⟨h, rfl, rfl⟩).2
  obtain ⟨hf, hnew, hedges⟩ := cutFirst_of_fronted he.1 hcut
  exact ⟨hf, hnew.trans he.2.1, hedges.trans he.2.2⟩

/-- The loop cuts newer items off the streams, and empties none. -/
theorem heads_enforceLoop (d : Digest) :
    Heads (enforceLoop maxChars passes d).newFindings d.newFindings ∧
      Heads (enforceLoop maxChars passes d).overturns d.overturns :=
  enforceLoop_induction
    (P := fun e => Heads e.newFindings d.newFindings ∧ Heads e.overturns d.overturns)
    (fun _ _ he hcut =>
      ⟨(heads_cutFirst hcut).1.trans he.1, (heads_cutFirst hcut).2.trans he.2⟩)
    maxChars passes ⟨.refl _, .refl _⟩

theorem enforceLoop_newFindings (h : ¬ d.Fronted) (he : d.overturns ≠ []) :
    (enforceLoop maxChars passes d).newFindings = d.newFindings := by
  refine (enforceLoop_induction
    (P := fun e => ¬ e.Fronted ∧ e.overturns ≠ [] ∧ e.newFindings = d.newFindings)
    (fun e e' he' hcut => ?_) maxChars passes ⟨h, he, rfl⟩).2.2
  obtain ⟨hf, hne, hnew⟩ := he'
  obtain ⟨hf', hnew', -⟩ := cutFirst_of_overturns hf hne hcut
  exact ⟨hf', mt (heads_cutFirst hcut).2.eq_nil hne, hnew'.trans hnew⟩

theorem enforceBudget_overturns_lt {maxChars : ℕ} (h : ¬ d.Fronted) (he : 2 ≤ d.overturns.length)
    (hsize : maxChars < d.size) :
    (enforceBudget d maxChars).overturns.length < d.overturns.length := by
  have hne : d.overturns ≠ [] := by
    rintro hnil
    rw [hnil] at he
    exact absurd he (by decide)
  unfold enforceBudget
  rw [enforceLoop, if_neg (Nat.not_le.mpr hsize)]
  cases hcut : d.cutFirst with
  | none =>
    unfold Digest.cutFirst at hcut
    split_ifs at hcut
  | some d' =>
    have hlen : d'.overturns.length < d.overturns.length := by
      rw [(cutFirst_of_overturns h hne hcut).2.2, length_take]
      unfold keep
      split_ifs <;> omega
    simp only
    split_ifs
    · exact hlen
    · obtain ⟨-, k, hk, -⟩ := heads_enforceLoop maxChars d.size d'
      rw [hk, length_take]
      omega

/-! ## The sections before the streams -/

/-- There is something to aggregate: a finding of a path, a component to hint at when no path is
asked for, or a live finding whose build has moved. -/
def Aggregates (findings : List Finding) (opts : DigestOptions) : Prop :=
  (∃ f ∈ findings, f.taskId ≠ none) ∨
    (opts.clusterMinPaths = 0 ∧ opts.recentWindow ≠ 0 ∧ live findings ≠ []) ∨
    ∃ f ∈ live findings, ∃ component was now, (component, was) ∈ f.config.entries ∧
      opts.currentConfig.get component = some now ∧ now ≠ was

theorem ne_nil_iff_exists_mem : l ≠ [] ↔ ∃ a, a ∈ l :=
  ⟨exists_mem_of_ne_nil l, fun ⟨_, h⟩ => ne_nil_of_mem h⟩

theorem values_ne_nil {t : Table String α} : t.values ≠ [] ↔ ∃ k v, t.get k = some v := by
  rw [ne_nil_iff_exists_mem]
  simp only [Table.mem_values]
  exact exists_comm

theorem foldl_get_iff {β : Type} {step : Table String α → β → Table String α} {P : β → Prop}
    (hskip : ∀ t b, ¬ P b → step t b = t) (hput : ∀ t b, P b → ∃ k v, step t b = t.insert k v)
    (l : List β) (t : Table String α) :
    (∃ k v, (l.foldl step t).get k = some v) ↔ (∃ k v, t.get k = some v) ∨ ∃ b ∈ l, P b := by
  induction l generalizing t with
  | nil => simp
  | cons b l ih =>
    rw [foldl_cons, ih]
    by_cases hb : P b
    · obtain ⟨k, v, hstep⟩ := hput t b hb
      have hget : (step t b).get k = some v := by rw [hstep, Table.get_insert_self]
      exact iff_of_true (.inl ⟨k, v, hget⟩) (.inr ⟨b, mem_cons_self, hb⟩)
    · rw [hskip t b hb]
      simp [hb]

theorem costByPath_ne_nil : costByPath findings ≠ [] ↔ ∃ f ∈ findings, f.taskId ≠ none := by
  unfold costByPath
  rw [values_ne_nil, foldl_get_iff (P := fun f : Finding => f.taskId ≠ none)]
  · simp
  · intro t f hf
    rw [not_not.mp hf]
  · intro t f hf
    obtain ⟨path, hpath⟩ := Option.ne_none_iff_exists'.mp hf
    rw [hpath]
    exact ⟨path, _, rfl⟩

variable {f : Finding} {current : Table String String}

theorem drift_entries_ne_nil :
    (drift f current).entries ≠ [] ↔ ∃ component was now, (component, was) ∈ f.config.entries ∧
      current.get component = some now ∧ now ≠ was := by
  have hentries : (drift f current).entries ≠ [] ↔ (drift f current).values ≠ [] := by
    simp [Table.values]
  rw [hentries, values_ne_nil]
  unfold drift
  rw [foldl_get_iff (P := fun p => ∃ now, current.get p.1 = some now ∧ now ≠ p.2)]
  · constructor
    · rintro (⟨k, v, h⟩ | ⟨p, hp, now, hget, hne⟩)
      · simp at h
      · exact ⟨p.1, p.2, now, hp, hget, hne⟩
    · rintro ⟨component, was, now, hp, hget, hne⟩
      exact .inr ⟨(component, was), hp, now, hget, hne⟩
  · intro t p hp
    cases hget : current.get p.1 with
    | none => rfl
    | some now =>
      have heq : now = p.2 := by
        by_contra hne
        exact hp ⟨now, hget, hne⟩
      simp [heq]
  · rintro t p ⟨now, hget, hne⟩
    exact ⟨p.1, (p.2, now), by simp [hget, hne]⟩

theorem staleFindings_ne_nil :
    staleFindings findings current ≠ [] ↔ ∃ f ∈ live findings, ∃ component was now,
      (component, was) ∈ f.config.entries ∧ current.get component = some now ∧ now ≠ was := by
  rw [ne_nil_iff_exists_mem]
  constructor
  · rintro ⟨s, hs⟩
    obtain ⟨f, hf, hs⟩ := mem_filterMap.mp (mem_reverse.mp hs)
    refine ⟨f, hf, drift_entries_ne_nil.mp ?_⟩
    rintro hnil
    simp [hnil] at hs
  · rintro ⟨f, hf, hdrift⟩
    have hne := drift_entries_ne_nil.mpr hdrift
    refine ⟨{ id := f.id, claim := f.claim, component := f.component, drifted := drift f current },
      mem_reverse.mpr (mem_filterMap.mpr ⟨f, hf, ?_⟩)⟩
    exact if_neg (by simpa using hne)

variable {recent : List Finding}

theorem byComponent_paths (h : ∀ f ∈ recent, f.taskId = none)
    {component : String} {entry : Table String Unit × List String}
    (hget : (byComponent recent).get component = some entry) : entry.1 = .empty := by
  -- Over the fold: no entry of the table so far has a path.
  refine foldlRecOn (motive := fun t : Table String (Table String Unit × List String) =>
    ∀ c e, t.get c = some e → e.1 = .empty) recent _ (by simp) (fun t ht f hf => ?_) component entry
    hget
  refine Table.forall_insert (fun c e _ => ht c e) ?_
  rw [h f hf]
  cases hold : t.get f.component with
  | none => rfl
  | some e => exact ht _ e hold

theorem byComponent_get_iff :
    (∃ component entry, (byComponent recent).get component = some entry) ↔ recent ≠ [] := by
  unfold byComponent
  rw [foldl_get_iff (P := fun _ => True)]
  · simp [ne_nil_iff_exists_mem]
  · exact fun _ _ h => absurd trivial h
  · exact fun _ _ _ => ⟨_, _, rfl⟩

theorem clusterHints_ne_nil {window minPaths : ℕ} (h : ∀ f ∈ findings, f.taskId = none) :
    clusterHints findings window minPaths ≠ [] ↔
      minPaths = 0 ∧ window ≠ 0 ∧ live findings ≠ [] := by
  have hrecent : (live findings).reverse.take window ≠ [] ↔ window ≠ 0 ∧ live findings ≠ [] := by
    simp [take_eq_nil_iff, not_or]
  have hnone : ∀ f ∈ (live findings).reverse.take window, f.taskId = none := by
    intro f hf
    exact h f (mem_filter.mp (mem_reverse.mp (mem_of_mem_take hf))).1
  rw [← hrecent, ← byComponent_get_iff, ne_nil_iff_exists_mem]
  unfold clusterHints
  simp only [mem_insertionSort, mem_map, mem_filter, decide_eq_true_eq]
  constructor
  · rintro ⟨_, ⟨component, entry⟩, ⟨hmem, hpaths⟩, rfl⟩
    have hget := Table.mem_entries.mp hmem
    rw [byComponent_paths hnone hget] at hpaths
    exact ⟨Nat.le_zero.mp hpaths, component, entry, hget⟩
  · rintro ⟨rfl, component, entry, hget⟩
    exact ⟨_, (component, entry), ⟨Table.mem_entries.mpr hget, Nat.zero_le _⟩, rfl⟩

theorem fronted_untrimmed_iff : (untrimmed findings opts).Fronted ↔ Aggregates findings opts := by
  change costByPath findings ≠ [] ∨ clusterHints findings _ _ ≠ [] ∨ staleFindings findings _ ≠ [] ↔
    _
  rw [costByPath_ne_nil, staleFindings_ne_nil]
  unfold Aggregates
  by_cases hpath : ∃ f ∈ findings, f.taskId ≠ none
  · exact iff_of_true (.inl hpath) (.inl hpath)
  · rw [clusterHints_ne_nil]
    simpa using hpath

/-! ## One call -/

/-- The options of a call from a watermark. -/
def DigestOptions.at (opts : DigestOptions) (since : UInt64) : DigestOptions :=
  { opts with sinceSeq := since }

/-- The overturn edges are not what the budget cuts: there is something to aggregate, or at most one
edge is pending, or the view fits. -/
def EdgesWhole (findings : List Finding) (opts : DigestOptions) : Prop :=
  Aggregates findings opts ∨ (pendingOverturns findings opts.sinceSeq).length ≤ 1 ∨
    (untrimmed findings opts).size ≤ opts.maxChars

theorem mem_pendingFindings {l : DigestFinding} :
    l ∈ pendingFindings findings since ↔ ∃ f ∈ live findings, since < f.seq ∧ f.line = l := by
  simp [pendingFindings, and_assoc]

variable {o : Overturn}

theorem mem_pendingOverturns :
    o ∈ pendingOverturns findings since ↔ ∃ f ∈ findings, since < f.seq ∧ o ∈ f.edges findings := by
  simp [pendingOverturns, and_assoc]

theorem bySeq_of_mem_edges (h : o ∈ f.edges findings) : o.bySeq = f.seq := by
  obtain ⟨old, -, rfl⟩ := mem_map.mp h
  rfl

theorem digest_streams (findings : List Finding) (opts : DigestOptions) :
    Heads (digest findings opts).newFindings (pendingFindings findings opts.sinceSeq) ∧
      Heads (digest findings opts).overturns (pendingOverturns findings opts.sinceSeq) :=
  heads_enforceLoop opts.maxChars _ (untrimmed findings opts)

theorem digest_of_edgesWhole (h : EdgesWhole findings opts) :
    ((digest findings opts).newFindings = pendingFindings findings opts.sinceSeq ∧
      (digest findings opts).overturns = pendingOverturns findings opts.sinceSeq) ∨
    pendingOverturns findings opts.sinceSeq = [] := by
  by_cases hf : (untrimmed findings opts).Fronted
  · exact .inl (enforceLoop_of_fronted opts.maxChars _ hf)
  by_cases he : pendingOverturns findings opts.sinceSeq = []
  · exact .inr he
  left
  rcases h with h | hone | hfits
  · exact absurd (fronted_untrimmed_iff.mpr h) hf
  · obtain ⟨-, k, hedges, hk⟩ := digest_streams findings opts
    exact ⟨enforceLoop_newFindings opts.maxChars _ hf he,
      hedges.trans (take_of_length_le (hone.trans (hk he)))⟩
  · have hout : enforceBudget (untrimmed findings opts) opts.maxChars =
      untrimmed findings opts := by
      rw [enforceBudget, enforceLoop, if_pos hfits]
    exact ⟨congrArg Digest.newFindings hout, congrArg Digest.overturns hout⟩

/-- The watermark stands still when nothing is delivered, and else is the greatest sequence that
is. -/
def Digest.Advances (d : Digest) (since : UInt64) : Prop :=
  (d.newFindings = [] ∧ d.overturns = [] ∧ d.watermark = since) ∨
  (((∃ l ∈ d.newFindings, l.seq = d.watermark) ∨ ∃ o ∈ d.overturns, o.bySeq = d.watermark) ∧
    (∀ l ∈ d.newFindings, l.seq ≤ d.watermark) ∧ ∀ o ∈ d.overturns, o.bySeq ≤ d.watermark)

theorem advances_nextWatermark (d : Digest) (since : UInt64) :
    Digest.Advances { d with watermark := nextWatermark d since } since := by
  have heq : nextWatermark d since =
      ((d.newFindings.map (·.seq) ++ d.overturns.map (·.bySeq)).max?).getD since := by
    rw [nextWatermark]
    cases d.newFindings <;> cases d.overturns <;> simp [max?, foldl_assoc]
  rw [Digest.Advances, heq]
  cases hmax : (d.newFindings.map (·.seq) ++ d.overturns.map (·.bySeq)).max? with
  | none =>
    obtain ⟨hn, ho⟩ := append_eq_nil_iff.mp (max?_eq_none_iff.mp hmax)
    exact .inl ⟨map_eq_nil_iff.mp hn, map_eq_nil_iff.mp ho, rfl⟩
  | some w =>
    obtain ⟨hmem, hle⟩ := max?_eq_some_iff.mp hmax
    obtain ⟨hfindings, hoverturns⟩ := forall_mem_append.mp hle
    exact .inr ⟨by simpa using hmem, by simpa using hfindings, by simpa using hoverturns⟩

variable (findings)

theorem watermark_digest (opts : DigestOptions) :
    (digest findings opts).Advances opts.sinceSeq :=
  advances_nextWatermark ..

/-! ## Streams -/

section

variable {α : Type} {seq : α → UInt64} {l : List α} {w : UInt64} {k : ℕ}

/-- In a strictly increasing list, what is above the greatest of a prefix is the rest. -/
theorem filter_le_eq_take (hl : l.Pairwise fun a b => seq a < seq b)
    (hmem : ∃ a ∈ l.take k, seq a = w) (hle : ∀ a ∈ l.take k, seq a ≤ w) :
    l.filter (fun a => seq a ≤ w) = l.take k := by
  obtain ⟨a, ha, rfl⟩ := hmem
  have hsplit := take_append_drop k l
  have hlt := (pairwise_append.mp (hsplit ▸ hl)).2.2
  conv_lhs => rw [← hsplit]
  rw [filter_append, filter_eq_self.mpr, filter_eq_nil_iff.mpr, append_nil]
  · intro b hb
    simpa using hlt a ha b hb
  · intro b hb
    simpa using hle b hb

theorem filter_le_append_perm (seq : α → UInt64) (w : UInt64) (l : List α) :
    (l.filter (fun a => seq a ≤ w) ++ l.filter fun a => w < seq a).Perm l := by
  have habove : (fun a => decide (w < seq a)) = fun a => !decide (seq a ≤ w) := by
    funext a
    rw [← decide_not]
    exact decide_eq_decide.mpr UInt64.not_le.symm
  rw [habove]
  exact filter_append_perm _ l

end

theorem pendingFindings_perm (since : UInt64) :
    (pendingFindings findings since).Perm
      (((live findings).filter fun f => since < f.seq).map (·.line)) :=
  perm_insertionSort ..

theorem pendingOverturns_perm (since : UInt64) :
    (pendingOverturns findings since).Perm
      ((findings.filter fun f => since < f.seq).flatMap (·.edges findings)) :=
  perm_insertionSort ..

variable {findings}

theorem pendingFindings_sorted (hseq : (findings.map (·.seq)).Nodup) (since : UInt64) :
    (pendingFindings findings since).Pairwise fun a b => a.seq < b.seq := by
  have hsorted : (pendingFindings findings since).Pairwise fun a b => a.seq ≤ b.seq := by
    exact pairwise_insertionSort ..
  have hsub : (((live findings).filter fun f => since < f.seq).map (·.seq)).Sublist
      (findings.map (·.seq)) :=
    (filter_sublist.trans filter_sublist).map _
  have hnodup : ((pendingFindings findings since).map (·.seq)).Nodup := by
    refine (((pendingFindings_perm findings since).map _).nodup_iff).mpr ?_
    rw [map_map]
    exact hsub.nodup hseq
  refine (hsorted.and (pairwise_map.mp hnodup)).imp ?_
  rintro a b ⟨hle, hne⟩
  exact UInt64.lt_of_le_of_ne hle hne

theorem lt_watermark_or (findings : List Finding) (opts : DigestOptions) :
    ((digest findings opts).newFindings = [] ∧ (digest findings opts).overturns = [] ∧
      (digest findings opts).watermark = opts.sinceSeq) ∨
    ∃ f ∈ findings, opts.sinceSeq < f.seq ∧ f.seq = (digest findings opts).watermark := by
  obtain ⟨⟨k, hnew, -⟩, k', hedges, -⟩ := digest_streams findings opts
  rcases watermark_digest findings opts with h | ⟨⟨l, hl, hw⟩ | ⟨o, ho, hw⟩, -⟩
  · exact .inl h
  · rw [hnew] at hl
    obtain ⟨f, hf, hlt, rfl⟩ := mem_pendingFindings.mp (mem_of_mem_take hl)
    exact .inr ⟨f, (mem_filter.mp hf).1, hlt, hw⟩
  · rw [hedges] at ho
    obtain ⟨f, hf, hlt, hmem⟩ := mem_pendingOverturns.mp (mem_of_mem_take ho)
    exact .inr ⟨f, hf, hlt, (bySeq_of_mem_edges hmem).symm.trans hw⟩

theorem since_le_watermark (findings : List Finding) (opts : DigestOptions) :
    opts.sinceSeq ≤ (digest findings opts).watermark := by
  rcases lt_watermark_or findings opts with ⟨-, -, h⟩ | ⟨f, -, hlt, hw⟩
  · exact UInt64.le_of_eq h.symm
  · exact hw ▸ UInt64.le_of_lt hlt

/-- A call whose edges are whole delivers what is pending up to its watermark, and leaves no edge
pending above it. -/
theorem digest_delivers (hseq : (findings.map (·.seq)).Nodup) (h : EdgesWhole findings opts) :
    (digest findings opts).newFindings = (pendingFindings findings opts.sinceSeq).filter
      (fun l => l.seq ≤ (digest findings opts).watermark) ∧
    (digest findings opts).overturns = pendingOverturns findings opts.sinceSeq ∧
    ∀ o ∈ pendingOverturns findings opts.sinceSeq, o.bySeq ≤ (digest findings opts).watermark := by
  obtain ⟨hheads, k', hedges, -⟩ := digest_streams findings opts
  have ⟨k, hnew, _⟩ := hheads
  rcases digest_of_edgesWhole h with ⟨hnew', hedges'⟩ | hnil
  · rcases watermark_digest findings opts with ⟨hn, ho, -⟩ | ⟨-, hle, hle'⟩
    · rw [hnew'] at hn
      rw [hedges'] at ho
      rw [hnew', hedges', hn, ho]
      simp
    · rw [hnew'] at hle
      rw [hedges'] at hle'
      refine ⟨?_, hedges', hle'⟩
      rw [hnew', filter_eq_self.mpr]
      simpa using hle
  · have ho : (digest findings opts).overturns = [] := by rw [hedges, hnil, take_nil]
    refine ⟨?_, ho.trans hnil.symm, by simp [hnil]⟩
    rcases watermark_digest findings opts with ⟨hn, -, -⟩ | ⟨hmem, hle, -⟩
    · rw [hn, hheads.eq_nil hn, filter_nil]
    · rw [ho] at hmem
      have hmem' : ∃ l ∈ (digest findings opts).newFindings,
          l.seq = (digest findings opts).watermark := by simpa using hmem
      rw [hnew] at hmem' hle
      rw [filter_le_eq_take (pendingFindings_sorted hseq _) hmem' hle]
      exact hnew

/-- The digests of the calls from a watermark, each from the watermark of the one before, until it
stands still. -/
inductive Streams (findings : List Finding) (opts : DigestOptions) : UInt64 → List Digest → Prop
  | stop {since : UInt64} (h : (digest findings (opts.at since)).watermark = since) :
    Streams findings opts since [digest findings (opts.at since)]
  | next {since : UInt64} {ds : List Digest}
    (h : (digest findings (opts.at since)).watermark ≠ since)
    (hs : Streams findings opts (digest findings (opts.at since)).watermark ds) :
    Streams findings opts since (digest findings (opts.at since) :: ds)

/-- Every live finding and every overturn edge above the start arrives once, and each call but the
last advances. -/
def Lossless (findings : List Finding) (since : UInt64) (ds : List Digest) : Prop :=
  (ds.flatMap (·.newFindings)).Perm
      (((live findings).filter fun f => since < f.seq).map (·.line)) ∧
    (ds.flatMap (·.overturns)).Perm
      ((findings.filter fun f => since < f.seq).flatMap (·.edges findings)) ∧
    (since :: ds.dropLast.map (·.watermark)).Pairwise (· < ·)

/-- Findings overturn older findings. -/
def BackEdges (findings : List Finding) : Prop :=
  ∀ h ∈ findings, ∀ f ∈ findings, f.id ∈ h.supersedes → f.seq < h.seq

variable {w : UInt64}

theorem filter_lt_filter (h : since ≤ w) (l : List Finding) :
    (l.filter fun f => since < f.seq).filter (fun f => w < f.seq) =
      l.filter fun f => w < f.seq := by
  rw [filter_filter]
  refine filter_congr fun f _ => ?_
  have himp : w < f.seq → since < f.seq := UInt64.lt_of_le_of_lt h
  by_cases hw : w < f.seq
  · simp [hw, himp hw]
  · simp [hw]

theorem streams_exists (findings : List Finding) (opts : DigestOptions) (since : UInt64) :
    ∃ ds, Streams findings opts since ds := by
  -- Each call that moves the watermark leaves fewer findings above it.
  induction hn : (findings.filter fun f => since < f.seq).length using Nat.strong_induction_on
    generalizing since with
  | _ n ih =>
    by_cases h : (digest findings (opts.at since)).watermark = since
    · exact ⟨_, .stop h⟩
    · rcases lt_watermark_or findings (opts.at since) with ⟨-, -, hw⟩ | ⟨f, hf, hlt, hw⟩
      · exact absurd hw h
      · have hfewer : (findings.filter fun g =>
            (digest findings (opts.at since)).watermark < g.seq).length < n := by
          have hsub := filter_lt_filter (since_le_watermark findings (opts.at since)) findings
          rw [← hn, ← hsub]
          refine length_filter_lt_length_iff_exists.mpr ⟨f, ?_, ?_⟩
          · simpa using ⟨hf, hlt⟩
          · simp [hw]
        obtain ⟨ds, hds⟩ := ih _ hfewer _ rfl
        exact ⟨_, .next h hds⟩

variable {ds : List Digest}

theorem Streams.ne_nil (h : Streams findings opts since ds) : ds ≠ [] := by
  cases h <;> exact cons_ne_nil _ _

theorem Streams.advances (h : Streams findings opts since ds) :
    (since :: ds.dropLast.map (·.watermark)).Pairwise (· < ·) := by
  induction h with
  | stop => simp
  | @next since ds hne hs ih =>
    rw [dropLast_cons_of_ne_nil hs.ne_nil, map_cons]
    have hlt : since < (digest findings (opts.at since)).watermark :=
      UInt64.lt_of_le_of_ne (since_le_watermark findings (opts.at since)) (Ne.symm hne)
    refine pairwise_cons.mpr ⟨?_, ih⟩
    intro w hw
    rcases mem_cons.mp hw with rfl | hw
    · exact hlt
    · exact UInt64.lt_trans hlt (rel_of_pairwise_cons ih hw)

theorem pendingFindings_filter_perm (h : since ≤ w) :
    ((pendingFindings findings since).filter fun l => w < l.seq).Perm
      (((live findings).filter fun f => w < f.seq).map (·.line)) := by
  refine ((pendingFindings_perm findings since).filter _).trans ?_
  rw [filter_map, ← filter_lt_filter h]
  exact List.Perm.refl _

theorem pendingOverturns_eq_nil (h : since ≤ w)
    (hle : ∀ o ∈ pendingOverturns findings since, o.bySeq ≤ w) :
    pendingOverturns findings w = [] := by
  refine eq_nil_iff_forall_not_mem.mpr fun o ho => ?_
  obtain ⟨f, hf, hlt, hmem⟩ := mem_pendingOverturns.mp ho
  have hpend := mem_pendingOverturns.mpr ⟨f, hf, UInt64.lt_of_le_of_lt h hlt, hmem⟩
  have hge := hle o hpend
  rw [bySeq_of_mem_edges hmem] at hge
  exact UInt64.not_lt.mpr hge hlt

theorem EdgesWhole.of_nil (h : pendingOverturns findings w = []) :
    EdgesWhole findings (opts.at w) :=
  .inr (.inl (by simp [DigestOptions.at, h]))

theorem pending_eq_nil (h : (digest findings opts).watermark = opts.sinceSeq) :
    ((digest findings opts).newFindings = [] ∧ pendingFindings findings opts.sinceSeq = []) ∧
      (digest findings opts).overturns = [] ∧ pendingOverturns findings opts.sinceSeq = [] := by
  obtain ⟨hnew, hedges⟩ := digest_streams findings opts
  rcases lt_watermark_or findings opts with ⟨hn, ho, -⟩ | ⟨f, -, hlt, hw⟩
  · exact ⟨⟨hn, hnew.eq_nil hn⟩, ho, hedges.eq_nil ho⟩
  · rw [hw, h] at hlt
    exact absurd hlt (UInt64.lt_irrefl _)

/-- **A stream whose edges are not cut is lossless.** -/
theorem Streams.lossless (hseq : (findings.map (·.seq)).Nodup) (h : Streams findings opts since ds)
    (hw : EdgesWhole findings (opts.at since)) : Lossless findings since ds := by
  suffices hperm : (ds.flatMap (·.newFindings)).Perm (pendingFindings findings since) ∧
      (ds.flatMap (·.overturns)).Perm (pendingOverturns findings since) from
    ⟨hperm.1.trans (pendingFindings_perm findings since),
      hperm.2.trans (pendingOverturns_perm findings since), h.advances⟩
  induction h with
  | @stop since h =>
    obtain ⟨⟨hnew, hpend⟩, hedges, hpend'⟩ := pending_eq_nil h
    simp [hnew, hedges, show pendingFindings findings since = [] from hpend,
      show pendingOverturns findings since = [] from hpend']
  | @next since ds hne hs ih =>
    obtain ⟨hnew, hedges, hle⟩ := digest_delivers hseq hw
    have hmono := since_le_watermark findings (opts.at since)
    have hnil := pendingOverturns_eq_nil hmono hle
    obtain ⟨hrest, hrest'⟩ := ih (EdgesWhole.of_nil hnil)
    rw [flatMap_cons, flatMap_cons, hnew, hedges]
    rw [hnil] at hrest'
    -- What is pending splits at the watermark of the call.
    have habove := hrest.trans ((pendingFindings_perm findings _).trans
      (pendingFindings_filter_perm hmono).symm)
    refine ⟨(habove.append_left _).trans (filter_le_append_perm ..), ?_⟩
    rw [hrest'.eq_nil, append_nil]
    exact List.Perm.refl _

theorem exists_newest_live (hback : BackEdges findings) (hne : findings ≠ []) :
    ∃ f ∈ live findings, ∀ g ∈ findings, g.seq ≤ f.seq := by
  cases hmax : (findings.map (·.seq)).max? with
  | none => exact absurd hmax (by simpa using hne)
  | some m =>
    obtain ⟨hmem, hle⟩ := max?_eq_some_iff.mp hmax
    obtain ⟨f, hf, rfl⟩ := mem_map.mp hmem
    have hnewest : ∀ g ∈ findings, g.seq ≤ f.seq := fun g hg => hle _ (mem_map_of_mem hg)
    refine ⟨f, mem_filter.mpr ⟨hf, decide_eq_true ?_⟩, hnewest⟩
    intro hover
    obtain ⟨h, hh, hsup⟩ := mem_flatMap.mp hover
    exact UInt64.not_lt.mpr (hnewest h hh) (hback h hh f hf hsup)

theorem Streams.overturns_eq_nil (h : Streams findings opts since ds)
    (hnone : ∀ f ∈ findings, f.seq ≤ since) : ds.flatMap (·.overturns) = [] := by
  -- Nothing is pending, so the first call is the last.
  rcases lt_watermark_or findings (opts.at since) with ⟨-, hnil, hw⟩ | ⟨f, hf, hlt, -⟩
  · cases h with
    | stop => simp [hnil]
    | next hne => exact absurd hw hne
  · exact absurd hlt (UInt64.not_lt.mpr (hnone f hf))

theorem Streams.edgesWhole (hback : BackEdges findings) (h : Streams findings opts since ds)
    (hloss : Lossless findings since ds) : EdgesWhole findings (opts.at since) := by
  by_contra hcut
  simp only [EdgesWhole, not_or, Nat.not_le] at hcut
  obtain ⟨hagg, htwo, hsize⟩ := hcut
  have hf : ¬ (untrimmed findings (opts.at since)).Fronted :=
    fun hf => hagg (fronted_untrimmed_iff.mp hf)
  have hfewer : (digest findings (opts.at since)).overturns.length <
      (pendingOverturns findings since).length :=
    enforceBudget_overturns_lt hf htwo hsize
  have hpend : pendingOverturns findings since ≠ [] :=
    length_pos_iff.mp (Nat.lt_of_le_of_lt (Nat.zero_le _) hfewer)
  have hnew : (digest findings (opts.at since)).newFindings = pendingFindings findings since :=
    enforceLoop_newFindings _ _ hf hpend
  -- The newest finding is live, so it is delivered, and the watermark passes every edge.
  obtain ⟨o, ho⟩ := exists_mem_of_ne_nil _ hpend
  obtain ⟨g, hg, hlt, -⟩ := mem_pendingOverturns.mp ho
  obtain ⟨f, hlive, hnewest⟩ := exists_newest_live hback (ne_nil_of_mem hg)
  have habove : since < f.seq := UInt64.lt_of_lt_of_le hlt (hnewest g hg)
  have hline : f.line ∈ (digest findings (opts.at since)).newFindings := by
    rw [hnew]
    exact mem_pendingFindings.mpr ⟨f, hlive, habove, rfl⟩
  have hpassed : f.seq ≤ (digest findings (opts.at since)).watermark := by
    rcases watermark_digest findings (opts.at since) with ⟨hnil, -, -⟩ | ⟨-, hle, -⟩
    · rw [hnil] at hline
      exact absurd hline not_mem_nil
    · exact hle _ hline
  have hedges := (hloss.2.1.trans (pendingOverturns_perm findings since).symm).length_eq
  cases h with
  | stop hstop =>
    rw [hstop] at hpassed
    exact UInt64.not_lt.mpr hpassed habove
  | next _ hs =>
    have hrest := hs.overturns_eq_nil fun g hg => UInt64.le_trans (hnewest g hg) hpassed
    rw [flatMap_cons, hrest, append_nil] at hedges
    exact absurd hedges (Nat.ne_of_lt hfewer)

/-- **Streaming is lossless exactly when the overturn edges are not what the budget cuts.** The
calls always come to an end; that edges are whole is enough for any log of distinct sequences, and
needed where findings overturn older ones. -/
theorem digest_stream_lossless (findings : List Finding) (opts : DigestOptions)
    (hseq : (findings.map (·.seq)).Nodup) :
    (∃ ds, Streams findings opts opts.sinceSeq ds) ∧
      ∀ ds, Streams findings opts opts.sinceSeq ds →
        (EdgesWhole findings opts → Lossless findings opts.sinceSeq ds) ∧
        (BackEdges findings → Lossless findings opts.sinceSeq ds → EdgesWhole findings opts) :=
  ⟨streams_exists findings opts opts.sinceSeq, fun _ h =>
    ⟨fun hw => h.lossless hseq hw, fun hback hloss => h.edgesWhole hback hloss⟩⟩

/-- Three findings of no path, each after the first overturning the one before. -/
def overturnedTwice : List Finding :=
  [⟨"a", 1, none, "x", .predicted, "c", .empty, [], 0⟩,
    ⟨"b", 2, none, "y", .ruledOut, "c", .empty, ["a"], 0⟩,
    ⟨"d", 3, none, "z", .confirmed, "c", .empty, ["b"], 0⟩]

def fromStart (maxChars : ℕ) : DigestOptions :=
  { sinceSeq := 0, currentConfig := .empty, maxChars, recentWindow := 40, clusterMinPaths := 2 }

/-- The same findings, on two paths. -/
def overturnedOnPaths : List Finding :=
  overturnedTwice.zipWith (fun f path => { f with taskId := some path }) ["p", "q", "q"]

/-- What the budget cuts is the cost of a path, and both edges arrive. -/
theorem digest_stream_lossless_overturnedOnPaths :
    ∃ ds, Streams overturnedOnPaths (fromStart 300) 0 ds ∧ Lossless overturnedOnPaths 0 ds ∧
      ds.flatMap (·.dropped) = [⟨"cost_by_path", 1⟩] := by
  have hseq : (overturnedOnPaths.map (·.seq)).Nodup := by decide
  have hwhole : EdgesWhole overturnedOnPaths (fromStart 300) := .inl (.inl (by decide))
  obtain ⟨-, hall⟩ := digest_stream_lossless overturnedOnPaths (fromStart 300) hseq
  have hds : Streams overturnedOnPaths (fromStart 300) 0 _ := .next (by decide) (.stop (by decide))
  exact ⟨_, hds, (hall _ hds).1 hwhole, by decide⟩

/-- With no room for two edges, the newer one never arrives: the calls deliver the live finding and
the older edge, and the watermark stands past both. -/
theorem overturn_edge_lost :
    ∃ ds, Streams overturnedTwice (fromStart 300) 0 ds ∧
      (ds.flatMap (·.overturns)).map (·.overturned) = ["a"] ∧ ¬ Lossless overturnedTwice 0 ds := by
  refine ⟨_, .next (by decide) (.stop (by decide)), by decide, ?_⟩
  intro h
  exact absurd h.2.1.length_eq (by decide)

end Octos.Findings
