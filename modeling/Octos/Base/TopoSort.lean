import Mathlib.Data.Set.Finite.List

/-!
# Kahn's algorithm

The iterative topological sort. A queue holds the vertices without unprocessed predecessors; the
algorithm takes the first one, counts it as processed and lowers the indegree of each of its
successors, queueing those that reach zero. A multigraph is given by the predecessors `preds` and
the successors `succs` of its vertices, with multiplicities.

The order of the initial queue is left open: the results hold for every one.
-/

namespace Octos

open List hiding beq_eq_decide
open Relation (ReflTransGen TransGen)

variable {α : Type} [DecidableEq α]

/-- The state of the algorithm: the indegrees over the unprocessed vertices, the queue, and the
vertices processed so far. -/
structure KahnState (α : Type) where
  indeg : α → ℕ
  queue : List α
  processed : List α

/-- Lower the indegree of a vertex, and queue it when it reaches zero. -/
def KahnState.lower (st : KahnState α) (t : α) : KahnState α :=
  match st.indeg t with
  | 0 => st
  | 1 => { st with indeg := Function.update st.indeg t 0, queue := st.queue ++ [t] }
  | n + 2 => { st with indeg := Function.update st.indeg t (n + 1) }

/-- Process the first vertex of the queue. -/
def KahnState.pop (succs : α → List α) (st : KahnState α) : KahnState α :=
  match st.queue with
  | [] => st
  | n :: queue => (succs n).foldl KahnState.lower
      { st with queue, processed := st.processed ++ [n] }

def kahn (succs : α → List α) : ℕ → KahnState α → KahnState α
  | 0, st => st
  | fuel + 1, st => kahn succs fuel (st.pop succs)

/-- The sources of the edges into `t`, with multiplicity. -/
def predecessors (edges : List (α × α)) (t : α) : List α := (edges.filter (·.2 = t)).map (·.1)

/-- The targets of the edges from `d`, with multiplicity. -/
def successors (edges : List (α × α)) (d : α) : List α := (edges.filter (·.1 = d)).map (·.2)

/-- The two lists of neighbours describe one multigraph on the vertices `V`. -/
structure Multigraph (V : List α) (preds succs : α → List α) : Prop where
  nodup : V.Nodup
  preds_mem : ∀ t ∈ V, ∀ d ∈ preds t, d ∈ V
  succs_mem : ∀ d, ∀ t ∈ succs d, t ∈ V
  count : ∀ t ∈ V, ∀ d, (succs d).count t = (preds t).count d

variable {edges : List (α × α)}

theorem mem_predecessors {d t : α} : d ∈ predecessors edges t ↔ (d, t) ∈ edges := by
  simp [predecessors]

theorem mem_successors {d t : α} : t ∈ successors edges d ↔ (d, t) ∈ edges := by
  simp [successors]

theorem Multigraph.of_edges {V : List α} (hV : V.Nodup) (hsrc : ∀ e ∈ edges, e.1 ∈ V)
    (htgt : ∀ e ∈ edges, e.2 ∈ V) :
    Multigraph V (predecessors edges) (successors edges) where
  nodup := hV
  preds_mem := fun _ _ _ hd => hsrc _ (mem_predecessors.mp hd)
  succs_mem := fun _ _ ht => htgt _ (mem_successors.mp ht)
  count := fun t _ d => by
    -- both count the edges from d to t
    simp [successors, predecessors, List.count, countP_map, countP_filter, Function.comp_def,
      beq_eq_decide, Bool.and_comm]

/-- The invariant of the algorithm, while the vertices `rest` wait to be lowered: an indegree
counts the unprocessed predecessors and the waiting lowerings, the vertices of indegree zero are
those queued or processed, each once, and a processed vertex comes after its predecessors. -/
structure KahnState.Inv (V : List α) (preds : α → List α) (rest : List α) (st : KahnState α) :
    Prop where
  indeg : ∀ t ∈ V, st.indeg t = (preds t).countP (· ∉ st.processed) + rest.count t
  nodup : (st.processed ++ st.queue).Nodup
  mem : ∀ t, t ∈ st.processed ++ st.queue ↔ t ∈ V ∧ st.indeg t = 0
  ordered : ∀ l t, l ++ [t] <+: st.processed → ∀ d ∈ preds t, d ∈ l

namespace KahnState.Inv

variable {V : List α} {preds succs : α → List α} {st : KahnState α} {rest : List α} {t : α}

theorem preds_processed (h : st.Inv V preds rest) (ht : t ∈ V) (h0 : st.indeg t = 0) :
    ∀ d ∈ preds t, d ∈ st.processed := by
  intro d hd
  have hcount := h.indeg t ht
  have hzero : (preds t).countP (· ∉ st.processed) = 0 := by omega
  simpa using countP_eq_zero.mp hzero d hd

theorem lower (h : st.Inv V preds (t :: rest)) (ht : t ∈ V) : (st.lower t).Inv V preds rest := by
  have hpos := h.indeg t ht
  rw [count_cons_self] at hpos
  -- the other vertices keep their indegree
  have hindeg : ∀ n, st.indeg t = n + 1 → ∀ u ∈ V, Function.update st.indeg t n u =
      (preds u).countP (· ∉ st.processed) + rest.count u := by
    intro n hn u hu
    by_cases hut : u = t
    · subst hut
      rw [Function.update_self]
      omega
    · rw [Function.update_of_ne hut, h.indeg u hu, count_cons_of_ne (Ne.symm hut)]
  have hnot : t ∉ st.processed ++ st.queue := by
    intro hmem
    have h0 := ((h.mem t).mp hmem).2
    omega
  unfold KahnState.lower
  split
  · omega
  · rename_i h1
    refine ⟨hindeg 0 h1, ?_, ?_, h.ordered⟩
    · rw [← append_assoc]
      refine nodup_append.mpr ⟨h.nodup, nodup_singleton t, ?_⟩
      rintro a ha b hb rfl
      rw [mem_singleton.mp hb] at ha
      exact hnot ha
    · intro u
      rw [← append_assoc, mem_append, h.mem, mem_singleton]
      by_cases hut : u = t
      · subst hut
        simp [ht]
      · simp [hut]
  · rename_i n h2
    refine ⟨hindeg (n + 1) h2, h.nodup, fun u => ?_, h.ordered⟩
    rw [h.mem]
    by_cases hut : u = t
    · subst hut
      simp [h2]
    · simp [hut]

theorem foldl_lower (h : st.Inv V preds rest) (hrest : ∀ t ∈ rest, t ∈ V) :
    (rest.foldl KahnState.lower st).Inv V preds [] := by
  induction rest generalizing st with
  | nil => exact h
  | cons t rest ih =>
    exact ih (h.lower (hrest t mem_cons_self)) fun u hu => hrest u (mem_cons_of_mem _ hu)

/-- Processing a vertex splits the unprocessed predecessors into its own occurrences and the
rest. -/
theorem countP_processed (l processed : List α) {n : α} (hn : n ∉ processed) :
    l.countP (· ∉ processed) = l.countP (· ∉ processed ++ [n]) + l.count n := by
  induction l with
  | nil => rfl
  | cons d l ih =>
    rw [countP_cons, countP_cons, count_cons, ih]
    by_cases hd : d = n
    · subst hd
      simp only [hn, mem_append, mem_singleton, or_true, not_true, not_false_iff,
        decide_true, decide_false, Bool.false_eq_true, if_true, if_false, beq_self_eq_true]
      omega
    · by_cases hp : d ∈ processed
      · simp [hd, hp]
      · simp [hd, hp]
        omega

/-- **One round keeps the invariant.** -/
theorem pop (hg : Multigraph V preds succs) (h : st.Inv V preds []) :
    (st.pop succs).Inv V preds [] := by
  unfold KahnState.pop
  cases hq : st.queue with
  | nil => exact h
  | cons n queue =>
    have hn : n ∈ st.processed ++ st.queue := by simp [hq]
    obtain ⟨hnV, hn0⟩ := (h.mem n).mp hn
    have hnodup := h.nodup
    rw [hq] at hnodup
    have hnp : n ∉ st.processed := by
      intro hmem
      exact (nodup_append.mp hnodup).2.2 n hmem n mem_cons_self rfl
    apply foldl_lower _ (hg.succs_mem n)
    refine ⟨?_, ?_, ?_, ?_⟩
    · intro t ht
      rw [h.indeg t ht, count_nil, Nat.add_zero, hg.count t ht n]
      exact countP_processed _ _ hnp
    · simpa using hnodup
    · intro t
      rw [← h.mem t, hq]
      simp
    · -- the new vertex comes after its predecessors, which are processed
      intro l t hl d hd
      rcases prefix_concat_iff.mp hl with heq | hold
      · obtain ⟨rfl, hnt⟩ := append_inj' heq rfl
        obtain rfl := singleton_inj.mp hnt
        exact h.preds_processed hnV hn0 d hd
      · exact h.ordered l t hold d hd

theorem kahn (hg : Multigraph V preds succs) (fuel : ℕ) (h : st.Inv V preds []) :
    (kahn succs fuel st).Inv V preds [] := by
  induction fuel generalizing st with
  | zero => exact h
  | succ fuel ih => exact ih (h.pop hg)

theorem init (hg : Multigraph V preds succs) {queue : List α}
    (hq : queue.Perm (V.filter fun t => (preds t).length = 0)) :
    Inv V preds [] ⟨fun t => (preds t).length, queue, []⟩ where
  indeg := fun t _ => by simp
  nodup := by
    exact hq.nodup_iff.mpr (hg.nodup.filter _)
  mem := fun t => by
    rw [nil_append, hq.mem_iff, mem_filter, decide_eq_true_eq]
  ordered := fun l t hl => by simp at hl

theorem length_le (h : st.Inv V preds rest) : (st.processed ++ st.queue).length ≤ V.length :=
  (subperm_of_subset h.nodup fun t ht => ((h.mem t).mp ht).1).length_le

theorem lower_processed (l : List α) (st : KahnState α) :
    (l.foldl KahnState.lower st).processed = st.processed := by
  induction l generalizing st with
  | nil => rfl
  | cons t l ih =>
    rw [foldl_cons, ih]
    unfold KahnState.lower
    split <;> rfl

/-- After a number of rounds the queue is empty or that many more vertices were processed. -/
theorem kahn_queue (fuel : ℕ) (st : KahnState α) :
    (Octos.kahn succs fuel st).queue = [] ∨
      (Octos.kahn succs fuel st).processed.length = st.processed.length + fuel := by
  induction fuel generalizing st with
  | zero => exact .inr rfl
  | succ fuel ih =>
    cases hq : st.queue with
    | nil =>
      -- an empty queue stays empty
      have hpop : st.pop succs = st := by
        unfold KahnState.pop
        rw [hq]
      have hstay : ∀ k, (Octos.kahn succs k st).queue = [] := by
        intro k
        induction k with
        | zero => exact hq
        | succ k ihk =>
          rw [Octos.kahn, hpop]
          exact ihk
      exact .inl (hstay (fuel + 1))
    | cons n queue =>
      rcases ih (st.pop succs) with hnil | hlen
      · exact .inl hnil
      · refine .inr (hlen.trans ?_)
        have hp : (st.pop succs).processed = st.processed ++ [n] := by
          unfold KahnState.pop
          rw [hq]
          exact lower_processed ..
        rw [hp, length_append, length_singleton]
        omega

/-- **As many rounds as there are vertices empty the queue.** -/
theorem queue_eq_nil (hg : Multigraph V preds succs) (h : st.Inv V preds []) :
    (Octos.kahn succs V.length st).queue = [] := by
  rcases kahn_queue V.length st with hnil | hlen
  · exact hnil
  · have hle := (h.kahn hg V.length).length_le
    rw [length_append] at hle
    exact eq_nil_of_length_eq_zero (by omega)

/-- **If every vertex was processed, the graph has a ranking**: every vertex ranks above its
predecessors. -/
theorem exists_rank (h : st.Inv V preds rest) (hall : st.processed.length = V.length) :
    ∃ rank : α → ℕ, ∀ t ∈ V, ∀ d ∈ preds t, rank d < rank t := by
  have hnodup := (nodup_append.mp h.nodup).1
  have hperm : st.processed.Perm V :=
    (subperm_of_subset hnodup fun t ht =>
      ((h.mem t).mp (mem_append_left _ ht)).1).perm_of_length_le hall.ge
  refine ⟨fun t => st.processed.idxOf t, fun t ht d hd => ?_⟩
  obtain ⟨l₁, l₂, hsplit⟩ := append_of_mem (hperm.mem_iff.mpr ht)
  have hd₁ := h.ordered l₁ t ⟨l₂, by simp [hsplit]⟩ d hd
  have htl : t ∉ l₁ := by
    rw [hsplit] at hnodup
    intro hmem
    exact (nodup_append.mp hnodup).2.2 t hmem t mem_cons_self rfl
  change st.processed.idxOf d < st.processed.idxOf t
  rw [hsplit, idxOf_append_of_mem hd₁, idxOf_append_of_notMem htl]
  have hlt := idxOf_lt_length_of_mem hd₁
  omega

omit [DecidableEq α] in
/-- Steps that never leave a finite list lead to a cycle. -/
theorem exists_cycle {r : α → α → Prop} {P : α → Prop} (hP : ∀ a, P a → a ∈ V ∧ ∃ b, r a b ∧ P b)
    (ht : P t) : ∃ c, ReflTransGen r t c ∧ TransGen r c c := by
  by_contra hnone
  push Not at hnone
  let S := {a // P a ∧ ReflTransGen r t a}
  have hfinite : Finite S :=
    Set.Finite.to_subtype ((finite_toSet V).subset fun a ha => (hP a ha.1).1)
  have hirrefl : Std.Irrefl fun a b : S => TransGen r b.1 a.1 := ⟨fun a => hnone a.1 a.2.2⟩
  -- the last one has a step, to one that is not behind it
  obtain ⟨m, -, hmin⟩ := (Finite.wellFounded_of_trans_of_irrefl fun a b : S =>
    TransGen r b.1 a.1).has_min Set.univ ⟨⟨t, ht, .refl⟩, trivial⟩
  obtain ⟨-, b, hstep, hb⟩ := hP m.1 m.2.1
  exact hmin ⟨b, hb, m.2.2.tail hstep⟩ trivial (.single hstep)

/-- **A vertex that was not processed leads back to a cycle.** -/
theorem left_over (hg : Multigraph V preds succs) (h : st.Inv V preds []) (hq : st.queue = [])
    (ht : t ∈ V) (hpos : 0 < st.indeg t) :
    ∃ c, ReflTransGen (fun a b => b ∈ preds a) t c ∧ TransGen (fun a b => b ∈ preds a) c c := by
  refine exists_cycle (V := V) (P := fun a => a ∈ V ∧ 0 < st.indeg a) ?_ ⟨ht, hpos⟩
  rintro a ⟨ha, hpos⟩
  rw [h.indeg a ha, count_nil, Nat.add_zero, countP_pos_iff] at hpos
  obtain ⟨d, hd, hnot⟩ := hpos
  have hdV := hg.preds_mem a ha d hd
  refine ⟨ha, d, hd, hdV, Nat.pos_of_ne_zero fun h0 => ?_⟩
  have hmem := (h.mem d).mpr ⟨hdV, h0⟩
  rw [hq, append_nil] at hmem
  simp [hmem] at hnot

end KahnState.Inv

end Octos
