import Octos.Base.TopoSort
import Octos.Fleet.Lifecycle

/-!
# The task graph of a plan

`validateGraph` accepts a task list when its ids are distinct and every dependency names another
task of the list, without a cycle. Cycles are found by Kahn's algorithm over the edges from a
dependency to the task that has it.

The source starts its queue in the order of a hash map; here it is the order of the tasks. The
results about the algorithm hold for every order.

## Main results

* `validateGraph_ok_iff`: which task lists are accepted, and what a rejection names
-/

namespace Octos.Fleet

open List

open Relation (ReflTransGen TransGen)

/-- A rejection of a structurally invalid task list or edit. -/
inductive PlanGraphError
  | duplicateTask (id : String)
  | duplicateAdd (id : String)
  | unknownTask (id : String)
  | selfDependency (id : String)
  | danglingDependency (task dep : String)
  | cycle (ids : List String)
  | emptySplit (id : String)
  | splitIdReuse (id : String)
  | retargetTerminalTask (id : String)
  deriving DecidableEq

/-! ## The checks -/

def taskIds (tasks : List PlanTask) : List String := tasks.map (·.taskId)

/-- The edges from a dependency to the task that has it, with multiplicity. -/
def taskEdges (tasks : List PlanTask) : List (String × String) :=
  tasks.flatMap fun t => (t.deps.filter ((taskIds tasks).contains ·)).map fun d => (d, t.taskId)

/-- The state in which the cycle search ends. -/
def cycleSearch (tasks : List PlanTask) : KahnState String :=
  let ids := (taskIds tasks).dedup
  let indeg := fun id => (predecessors (taskEdges tasks) id).length
  kahn (successors (taskEdges tasks)) ids.length ⟨indeg, ids.filter (indeg · = 0), []⟩

/-- The ids left unresolved by the search, sorted, or `none` when every task was processed. -/
def findCycle (tasks : List PlanTask) : Option (List String) :=
  let st := cycleSearch tasks
  if st.processed.length = tasks.length then none
  else some (((taskIds tasks).dedup.filter (0 < st.indeg ·)).insertionSort (· ≤ ·))

/-- Collect the task ids; a repeated one is rejected. -/
def checkUnique (ids : List String) : List PlanTask → Except PlanGraphError (List String)
  | [] => .ok ids
  | t :: ts =>
    if ids.contains t.taskId then .error (.duplicateTask t.taskId)
    else checkUnique (t.taskId :: ids) ts

def checkDep (ids : List String) (t : PlanTask) (d : String) : Except PlanGraphError Unit :=
  if d = t.taskId then .error (.selfDependency t.taskId)
  else if !ids.contains d then .error (.danglingDependency t.taskId d)
  else .ok ()

/-- Validate the whole task graph: unique ids, no dependency of a task on itself or on a task that
is not there, and no cycle. -/
def validateGraph (tasks : List PlanTask) : Except PlanGraphError Unit := do
  let ids ← checkUnique [] tasks
  tasks.forM fun t => t.deps.forM (checkDep ids t)
  match findCycle tasks with
  | some cycle => .error (.cycle cycle)
  | none => .ok ()

/-! ## What the checks establish -/

variable {tasks : List PlanTask}

/-- A task list with distinct ids whose dependencies are tasks of lower rank. -/
structure ValidGraph (tasks : List PlanTask) : Prop where
  nodup : (taskIds tasks).Nodup
  deps_mem : ∀ t ∈ tasks, ∀ d ∈ t.deps, d ∈ taskIds tasks
  acyclic : ∃ rank : String → ℕ, ∀ t ∈ tasks, ∀ d ∈ t.deps, rank d < rank t.taskId

theorem mem_taskIds {t : PlanTask} (ht : t ∈ tasks) : t.taskId ∈ taskIds tasks := mem_map_of_mem ht

theorem mem_taskEdges {d c : String} :
    (d, c) ∈ taskEdges tasks ↔ ∃ t ∈ tasks, t.taskId = c ∧ d ∈ t.deps ∧ d ∈ taskIds tasks := by
  simp only [taskEdges, mem_flatMap, mem_map, mem_filter, contains_iff_mem, Prod.mk.injEq]
  constructor
  · rintro ⟨t, ht, _, hd, rfl, hc⟩
    exact ⟨t, ht, hc, hd⟩
  · rintro ⟨t, ht, hc, hd⟩
    exact ⟨t, ht, d, hd, rfl, hc⟩

variable (tasks)

theorem taskEdges_multigraph :
    Multigraph (taskIds tasks).dedup (predecessors (taskEdges tasks))
      (successors (taskEdges tasks)) := by
  refine .of_edges (nodup_dedup _) ?_ ?_
  · rintro ⟨d, c⟩ he
    obtain ⟨t, ht, -, -, hd⟩ := mem_taskEdges.mp he
    exact mem_dedup.mpr hd
  · rintro ⟨d, c⟩ he
    obtain ⟨t, ht, rfl, -⟩ := mem_taskEdges.mp he
    exact mem_dedup.mpr (mem_taskIds ht)

/-- **The search runs until its queue is empty.** -/
theorem cycleSearch_queue : (cycleSearch tasks).queue = [] :=
  (KahnState.Inv.init (taskEdges_multigraph tasks) (.refl _)).queue_eq_nil
    (taskEdges_multigraph tasks)

theorem cycleSearch_inv :
    (cycleSearch tasks).Inv (taskIds tasks).dedup (predecessors (taskEdges tasks)) [] :=
  (KahnState.Inv.init (taskEdges_multigraph tasks) (.refl _)).kahn (taskEdges_multigraph tasks) _

variable {tasks}

theorem exists_rank_of_findCycle (h : findCycle tasks = none) :
    ∃ rank : String → ℕ, ∀ t ∈ tasks, ∀ d ∈ t.deps, d ∈ taskIds tasks → rank d < rank t.taskId := by
  have hinv := cycleSearch_inv tasks
  unfold findCycle at h
  dsimp only at h
  split_ifs at h with hall
  have hlen : (cycleSearch tasks).processed.length = (taskIds tasks).dedup.length := by
    have hle := hinv.length_le
    have hsub := (dedup_sublist (taskIds tasks)).length_le
    rw [length_append] at hle
    rw [taskIds, length_map] at hsub
    unfold taskIds at hle ⊢
    omega
  obtain ⟨rank, hrank⟩ := hinv.exists_rank hlen
  refine ⟨rank, fun t ht d hd hmem => ?_⟩
  exact hrank t.taskId (mem_dedup.mpr (mem_taskIds ht)) d
    (mem_predecessors.mpr (mem_taskEdges.mpr ⟨t, ht, rfl, hd, hmem⟩))

theorem checkUnique_eq_ok {ids ids' : List String} : checkUnique ids tasks = .ok ids' ↔
    ids' = (taskIds tasks).reverse ++ ids ∧ (taskIds tasks).Nodup ∧
      ∀ id ∈ taskIds tasks, id ∉ ids := by
  induction tasks generalizing ids with
  | nil => simp [checkUnique, taskIds, eq_comm]
  | cons t tasks ih =>
    rw [checkUnique]
    unfold taskIds at ih ⊢
    split_ifs with hmem
    · simp_all
    · grind

theorem validateGraph_eq_ok : validateGraph tasks = .ok () ↔ (taskIds tasks).Nodup ∧
    (∀ t ∈ tasks, ∀ d ∈ t.deps, d ∈ taskIds tasks ∧ d ≠ t.taskId) ∧ findCycle tasks = none := by
  have hdep : ∀ t d, checkDep ((taskIds tasks).reverse ++ []) t d = .ok () ↔
      d ∈ taskIds tasks ∧ d ≠ t.taskId := by
    intro t d
    unfold checkDep
    split_ifs with hself hin <;> simp_all
  have hdeps : ∀ t : PlanTask, t.deps.forM (checkDep ((taskIds tasks).reverse ++ []) t) = .ok () ↔
      ∀ d ∈ t.deps, d ∈ taskIds tasks ∧ d ≠ t.taskId := by
    intro t
    rw [forM_eq_ok]
    exact forall₂_congr fun d _ => hdep t d
  unfold validateGraph
  constructor
  · intro h
    obtain ⟨ids, hids, h⟩ := bind_eq_ok.mp h
    obtain ⟨_, hchecks, hcycle⟩ := bind_eq_ok.mp h
    obtain ⟨rfl, hnodup, -⟩ := checkUnique_eq_ok.mp hids
    refine ⟨hnodup, fun t ht => (hdeps t).mp (forM_eq_ok.mp hchecks t ht), ?_⟩
    cases hfind : findCycle tasks with
    | none => rfl
    | some cycle =>
      rw [hfind] at hcycle
      cases hcycle
  · rintro ⟨hnodup, hmem, hfind⟩
    rw [checkUnique_eq_ok.mpr ⟨rfl, hnodup, by simp⟩]
    have hchecks := forM_eq_ok.mpr fun t ht => (hdeps t).mpr (hmem t ht)
    rw [bind_eq_ok]
    exact ⟨_, rfl, bind_eq_ok.mpr ⟨(), hchecks, by rw [hfind]⟩⟩

/-- **An accepted task list is a valid graph.** -/
theorem ValidGraph.of_validateGraph (h : validateGraph tasks = .ok ()) : ValidGraph tasks := by
  obtain ⟨hnodup, hdeps, hfind⟩ := validateGraph_eq_ok.mp h
  obtain ⟨rank, hrank⟩ := exists_rank_of_findCycle hfind
  exact ⟨hnodup, fun t ht d hd => (hdeps t ht d hd).1, rank,
    fun t ht d hd => hrank t ht d hd (hdeps t ht d hd).1⟩

def DependsOn (tasks : List PlanTask) (id d : String) : Prop :=
  ∃ t ∈ tasks, t.taskId = id ∧ d ∈ t.deps

variable {cycle : List String}

theorem exists_cycle_of_findCycle (h : findCycle tasks = some cycle)
    {id : String} (hid : id ∈ cycle) :
    ∃ c, ReflTransGen (DependsOn tasks) id c ∧ TransGen (DependsOn tasks) c c := by
  unfold findCycle at h
  dsimp only at h
  split_ifs at h
  cases h
  rw [mem_insertionSort, mem_filter, decide_eq_true_eq] at hid
  obtain ⟨c, hreach, hcycle⟩ := (cycleSearch_inv tasks).left_over (taskEdges_multigraph tasks)
    (cycleSearch_queue tasks) hid.1 hid.2
  have hdep : ∀ a b, b ∈ predecessors (taskEdges tasks) a → DependsOn tasks a b := by
    intro a b hb
    obtain ⟨t, ht, hta, hd, -⟩ := mem_taskEdges.mp (mem_predecessors.mp hb)
    exact ⟨t, ht, hta, hd⟩
  exact ⟨c, ReflTransGen.mono hdep _ _ hreach, TransGen.mono hdep _ _ hcycle⟩

theorem findCycle_ne_nil (hnodup : (taskIds tasks).Nodup)
    (h : findCycle tasks = some cycle) : cycle ≠ [] := by
  have hinv := cycleSearch_inv tasks
  unfold findCycle at h
  dsimp only at h
  split_ifs at h with hlen
  cases h
  intro hnil
  -- without a task that is left over, every one was processed
  have hsub : (taskIds tasks).dedup ⊆ (cycleSearch tasks).processed := by
    intro t ht
    have hzero : ¬ 0 < (cycleSearch tasks).indeg t := by
      intro hpos
      refine absurd ?_ (eq_nil_iff_forall_not_mem.mp hnil t)
      rw [mem_insertionSort, mem_filter, decide_eq_true_eq]
      exact ⟨ht, hpos⟩
    have hmem := (hinv.mem t).mpr ⟨ht, Nat.eq_zero_of_not_pos hzero⟩
    rwa [cycleSearch_queue, append_nil] at hmem
  have hge := ((nodup_dedup _).subperm hsub).length_le
  have hle := hinv.length_le
  rw [length_append] at hle
  rw [hnodup.dedup, taskIds, length_map] at hge hle
  omega

/-- **Which task lists are accepted**: those with distinct ids whose dependencies are other tasks of
the list, without a cycle. Every id that the cycle search reports is on a cycle or depends on
one. -/
theorem validateGraph_ok_iff (tasks : List PlanTask) :
    (validateGraph tasks = .ok () ↔ (taskIds tasks).Nodup ∧
      (∀ t ∈ tasks, ∀ d ∈ t.deps, d ∈ taskIds tasks ∧ d ≠ t.taskId) ∧
      ∀ c, ¬ TransGen (DependsOn tasks) c c) ∧
    ∀ cycle, findCycle tasks = some cycle → ∀ id ∈ cycle,
      ∃ c, ReflTransGen (DependsOn tasks) id c ∧ TransGen (DependsOn tasks) c c := by
  refine ⟨?_, fun cycle h id hid => exists_cycle_of_findCycle h hid⟩
  rw [validateGraph_eq_ok]
  refine and_congr_right fun hnodup => and_congr_right fun hdeps => ⟨fun h => ?_, fun h => ?_⟩
  · obtain ⟨rank, hrank⟩ := exists_rank_of_findCycle h
    -- a rank falls along the dependencies
    have hlt : ∀ a b, TransGen (DependsOn tasks) a b → rank b < rank a := by
      intro a b hab
      induction hab with obtain ⟨t, ht, rfl, hd⟩ := hstep
      | single hstep => exact hrank t ht _ hd (hdeps t ht _ hd).1
      | tail _ hstep ih => exact (hrank t ht _ hd (hdeps t ht _ hd).1).trans ih
    exact fun c hc => (hlt c c hc).false
  · by_contra hsome
    obtain ⟨cycle, hcycle⟩ := Option.ne_none_iff_exists'.mp hsome
    obtain ⟨id, hid⟩ := exists_mem_of_ne_nil _ (findCycle_ne_nil hnodup hcycle)
    obtain ⟨c, -, hc⟩ := exists_cycle_of_findCycle hcycle hid
    exact h c hc

variable {tasks' : List PlanTask}

section

variable (hshape : taskShape tasks' = taskShape tasks)
include hshape

theorem taskIds_of_taskShape :
    taskIds tasks' = taskIds tasks := by
  have hfst := congrArg (List.map Prod.fst) hshape
  simpa [taskShape, taskIds, Function.comp_def] using hfst

theorem exists_of_taskShape {t' : PlanTask}
    (ht' : t' ∈ tasks') : ∃ t ∈ tasks, t.taskId = t'.taskId ∧ t.deps = t'.deps := by
  have hmem : (t'.taskId, t'.deps) ∈ taskShape tasks' := mem_map_of_mem ht'
  rw [hshape] at hmem
  obtain ⟨t, ht, heq⟩ := mem_map.mp hmem
  exact ⟨t, ht, (Prod.mk.inj heq).1, (Prod.mk.inj heq).2⟩

theorem ValidGraph.congr (h : ValidGraph tasks) :
    ValidGraph tasks' := by
  obtain ⟨rank, hrank⟩ := h.acyclic
  refine ⟨?_, fun t' ht' d hd => ?_, rank, fun t' ht' d hd => ?_⟩
  · rw [taskIds_of_taskShape hshape]
    exact h.nodup
  · obtain ⟨t, ht, -, hdeps⟩ := exists_of_taskShape hshape ht'
    rw [taskIds_of_taskShape hshape]
    exact h.deps_mem t ht d (hdeps ▸ hd)
  · obtain ⟨t, ht, hid, hdeps⟩ := exists_of_taskShape hshape ht'
    rw [← hid]
    exact hrank t ht d (hdeps ▸ hd)

end

end Octos.Fleet
