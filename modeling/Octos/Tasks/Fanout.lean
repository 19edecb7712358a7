import Octos.Tasks.Sections

/-!
# The cap on children

A session may have a bounded number of children that are active at the same time. A registration
counts them in one section and enters its task in a later one. Registrations of one session that all
count before any of them enters its task see the same room, and together take more than there is.
The parent is looked up again under the lock of the insertion; the count is not taken again. And a
parked child, which does not count, becomes active again without a count.

What a registration takes is room for itself as soon as it has counted. The cap holds when the room
is counted like that: the active children and the registrations between their count and their
insertion.

## Main results

* `fanout_capped`: the cap holds in every state of a run that keeps room
* `simultaneous_counts_exceed`: two registrations that count before either enters its task
-/

namespace Octos.Tasks

def isActiveChild (key : String) (t : BackgroundTask) : Bool :=
  t.parentSessionKey = some key && t.status.isActive

def activeChildren (w : World) (key : String) : ℕ :=
  w.supervisor.tasks.values.countP (isActiveChild key)

/-- The section enters a child of the session. -/
def Act.inserts (key : String) : Act → ℕ
  | .registerInsert req => if req.sessionKey = some key then 1 else 0
  | _ => 0

/-- The registrations of a session that have counted and have still to enter their task. -/
def inserting (p : Pool World Act) (key : String) : ℕ := p.total (Act.inserts key)

/-- There is room for one more child of the session, counting the registrations under way. -/
def hasRoom (cfg : Config) (p : Pool World Act) (key : String) : Bool :=
  activeChildren p.shared key + inserting p key < cfg.maxChildrenPerParent

/-- The moves of a run without readers of the ledger in which a registration of the session counts
only when no other one is between its count and its insertion, or there is room, and a parked child
of the session is taken up only when there is room. -/
def keepsRoom (cfg : Config) (key : String) (p : Pool World Act) : Move Call Reading → Bool
  | .spawn c => !c.first.readsLedger
  | .run i _ =>
    match p.next i with
    | some (.registerCount key' _) => key' != key || inserting p key == 0 || hasRoom cfg p key
    | some (.mark id .running) =>
      (p.shared.getTask id).all (fun t => t.status ≠ .parked || t.parentSessionKey ≠ some key) ||
        hasRoom cfg p key
    | _ => true

/-! ## One section -/

section

variable {cfg : Config} {r : Reading} {w : World} {a b : Act} {key : String}

theorem activeChildren_le_liveChildren (w : World) (key : String) :
    activeChildren w key ≤ liveChildren w key := by
  refine List.countP_mono_left fun t _ hchild => ?_
  obtain ⟨hkey, hactive⟩ := (Bool.and_eq_true ..).mp hchild
  simp [hkey, hactive]

/-- The section knows the session of its registration. -/
def Act.Gated : Act → Prop
  | .registerPoisoned key req => req.sessionKey = some key
  | .registerCount key req => req.sessionKey = some key
  | _ => True

theorem Follows.gated (h : Follows cfg w a b) (ha : a.Gated) : b.Gated := by
  cases h with
  | gate hkey => exact hkey
  | count => exact ha
  | _ => trivial

theorem Follows.inserts (h : Follows cfg w a b) (ha : a.Gated) (hb : b.inserts key ≠ 0) :
    ∃ req, a = .registerCount key req ∧ liveChildren w key < cfg.maxChildrenPerParent := by
  cases h with
  | insertDetached hkey =>
    rw [Act.inserts, hkey, if_neg (Option.some_ne_none key).symm] at hb
    exact absurd rfl hb
  | @insertCounted key' req hroom =>
    rw [Act.inserts, show req.sessionKey = some key' from ha] at hb
    obtain rfl : key' = key := by
      by_contra hne
      exact hb (if_neg fun h => hne (Option.some.inj h))
    exact ⟨req, rfl, hroom⟩
  | _ => exact absurd rfl hb

theorem inserts_registerCount_le (req : Registration) (key' : String) :
    ((registerCount cfg w r key' req).map (Act.inserts key)).sum ≤ 1 := by
  rw [registerCount]
  split
  · exact Nat.zero_le 1
  · split_ifs
    · exact Nat.zero_le 1
    · rw [List.map_singleton, List.sum_singleton, Act.inserts]
      split_ifs
      · exact le_rfl
      · exact Nat.zero_le 1

theorem inserts_perform (cfg : Config) (r : Reading) (w : World) (key : String) (ha : a.Gated) :
    (((perform cfg r w a).2.getD []).map (Act.inserts key)).sum = 0 ∨
    (∃ req, a = .registerCount key req ∧ activeChildren w key < cfg.maxChildrenPerParent ∧
      (((perform cfg r w a).2.getD []).map (Act.inserts key)).sum ≤ 1) := by
  by_cases hnone : ∀ b ∈ (perform cfg r w a).2.getD [], b.inserts key = 0
  · refine .inl (List.sum_eq_zero fun n hn => ?_)
    obtain ⟨b, hb, rfl⟩ := List.mem_map.mp hn
    exact hnone b hb
  · push Not at hnone
    obtain ⟨b, hb, hinserts⟩ := hnone
    obtain ⟨req, rfl, hroom⟩ := (follows_perform hb).inserts ha hinserts
    exact .inr ⟨req, rfl, (activeChildren_le_liveChildren w key).trans_lt hroom,
      inserts_registerCount_le req key⟩

theorem isActiveChild_apply {now : ℕ} {m : Mark} {t t' : BackgroundTask}
    (happly : m.apply now t = some t')
    (hchild : isActiveChild key t' = true) :
    isActiveChild key t = true ∨
      (m = .running ∧ t.status = .parked ∧ t.parentSessionKey = some key) := by
  obtain ⟨hkey, hactive⟩ := (Bool.and_eq_true ..).mp hchild
  rw [(m.apply_sameTask happly).1.parentSessionKey] at hkey
  rcases m.isActive_of_apply happly hactive with hactive | ⟨hm, hparked⟩
  · exact .inl ((Bool.and_eq_true ..).mpr ⟨hkey, hactive⟩)
  · exact .inr ⟨hm, hparked, of_decide_eq_true hkey⟩

theorem toNat_isActiveChild_newTask (id : TaskId) (now : ℕ) (req : Registration) :
    (isActiveChild key (newTask id now req)).toNat = (Act.registerInsert req).inserts key := by
  rw [Act.inserts, isActiveChild, newTask]
  split_ifs with hkey
  · simp [hkey, TaskStatus.isActive]
  · simp [hkey]

/-- **The active children after a section**: no more than before, but for the child that an
insertion enters and the parked child that is taken up. -/
theorem activeChildren_perform (cfg : Config) (r : Reading) (w : World) (key : String)
    (ha : a.readsLedger = false) :
    activeChildren (perform cfg r w a).1 key ≤ activeChildren w key + a.inserts key ∨
    (∃ id t, a = .mark id .running ∧ w.getTask id = some t ∧ t.status = .parked ∧
      t.parentSessionKey = some key ∧
      activeChildren (perform cfg r w a).1 key ≤ activeChildren w key + 1) := by
  rcases tasks_perform cfg r w a with hsame | ⟨id, m, t, t', rfl, hget, happly, hperform⟩ |
    ⟨req, rfl, htasks, -⟩ | hmerges
  · left
    rw [activeChildren, hsame]
    exact Nat.le_add_right ..
  · have hcount := w.supervisor.tasks.countP_insert (isActiveChild key) id t'
    rw [show w.supervisor.tasks.get id = some t from hget, Option.elim_some] at hcount
    have hafter : activeChildren (perform cfg r w (.mark id m)).1 key =
        (w.supervisor.tasks.insert id t').values.countP (isActiveChild key) := by
      rw [hperform]
      rfl
    rw [hafter, activeChildren]
    -- A transition makes a child active only by waking a parked one.
    by_cases hchild : isActiveChild key t' = true
    · rcases isActiveChild_apply happly hchild with hold | ⟨rfl, hparked, hkey⟩
      · left
        rw [hchild, hold] at hcount
        omega
      · right
        refine ⟨id, t, rfl, hget, hparked, hkey, ?_⟩
        rw [hchild, Bool.toNat_true] at hcount
        omega
    · left
      rw [Bool.not_eq_true] at hchild
      rw [hchild, Bool.toNat_false] at hcount
      omega
  · left
    have hcount := w.supervisor.tasks.countP_insert (isActiveChild key) w.process.nextId
      (newTask w.process.nextId w.process.clock req)
    rw [toNat_isActiveChild_newTask] at hcount
    rw [activeChildren, htasks, activeChildren]
    omega
  · rw [Act.readsLedger_of_merges hmerges] at ha
    cases ha

end

/-- The active children and the registrations under way are within the cap. -/
structure Capped (cfg : Config) (key : String) (p : Pool World Act) : Prop where
  unread : ∀ a ∈ p.acts, a.readsLedger = false
  gated : ∀ a ∈ p.acts, a.Gated
  bound : activeChildren p.shared key + inserting p key ≤ cfg.maxChildrenPerParent

section

variable {cfg : Config} {key : String} {p : Pool World Act} {i : ℕ} {r : Reading} {a : Act}

theorem Capped.spawn (h : Capped cfg key p) (c : Call)
    (hok : keepsRoom cfg key p (.spawn c) = true) :
    Capped cfg key (step cfg p (.spawn c)) := by
  refine ⟨fun a ha => ?_, fun a ha => ?_, ?_⟩
  · rcases Pool.mem_acts_spawn.mp ha with ha | ha
    · exact h.unread a ha
    · rw [List.mem_singleton.mp ha]
      simpa [keepsRoom] using hok
  · rcases Pool.mem_acts_spawn.mp ha with ha | ha
    · exact h.gated a ha
    · rw [List.mem_singleton.mp ha]
      cases c <;> trivial
  · have hfirst : (c.start.map (Act.inserts key)).sum = 0 := by
      cases c <;> rfl
    rw [inserting, step, Pool.total_spawn, hfirst]
    exact h.bound

/-- **A section that keeps room keeps the cap.** -/
theorem Capped.run (h : Capped cfg key p) (hnext : p.next i = some a)
    (hok : keepsRoom cfg key p (.run i r) = true) : Capped cfg key (step cfg p (.run i r)) := by
  have hmem := Pool.mem_acts_of_next hnext
  have hunread := h.unread a hmem
  have hgated := h.gated a hmem
  refine ⟨fun b hb => ?_, fun b hb => ?_, ?_⟩
  · rcases Pool.mem_acts_run hnext hb with hb | hb
    · exact h.unread b hb
    · rw [← Bool.not_eq_true] at hunread ⊢
      exact fun hreads => hunread ((follows_perform hb).readsLedger hreads)
  · rcases Pool.mem_acts_run hnext hb with hb | hb
    · exact h.gated b hb
    · exact (follows_perform hb).gated hgated
  · have hbound := h.bound
    -- what the section does to the registrations under way, and to the active children
    have htotal : inserting (step cfg p (.run i r)) key + a.inserts key ≤ inserting p key +
        (((perform cfg r (p.shared.advance r.tick) a).2.getD []).map (Act.inserts key)).sum :=
      Pool.total_run (Act.inserts key) hnext
    have hshared : (step cfg p (.run i r)).shared = (perform cfg r (p.shared.advance r.tick) a).1 :=
      Pool.shared_run hnext
    have hadvance : activeChildren (p.shared.advance r.tick) key =
        activeChildren p.shared key := rfl
    have hinserts := inserts_perform cfg r (p.shared.advance r.tick) key hgated
    have hactive := activeChildren_perform cfg r (p.shared.advance r.tick) key hunread
    rw [keepsRoom, hnext] at hok
    rw [hshared]
    rcases hactive with hactive | ⟨id, t, rfl, hget, hparked, hkey, hactive⟩
    · rcases hinserts with hnone | ⟨req, rfl, hroom, hone⟩
      · omega
      · -- a count: there is no other registration under way, or there is room
        simp only [bne_self_eq_false, Bool.false_or, Bool.or_eq_true, beq_iff_eq, hasRoom,
          decide_eq_true_eq] at hok
        omega
    · -- a parked child is taken up
      have hget' : p.shared.getTask id = some t := hget
      simp only [hget', Option.all_some, hparked, hkey, ne_eq, not_true_eq_false, decide_false,
        Bool.or_self, Bool.false_or, hasRoom, decide_eq_true_eq] at hok
      rcases hinserts with hnone | ⟨req, hcount, -⟩
      · omega
      · cases hcount

theorem capped_initial (cfg : Config) (key : String) : Capped cfg key initial where
  unread a ha := by cases ha
  gated a ha := by cases ha
  bound := Nat.zero_le _

end

/-- **The cap on children holds in every run that keeps room.** -/
theorem fanout_capped (cfg : Config) (key : String) (moves : List (Move Call Reading))
    (h : Guarded (step cfg) (fun p move => keepsRoom cfg key p move = true) initial moves) :
    activeChildren (runSteps (step cfg) initial moves).shared key ≤ cfg.maxChildrenPerParent := by
  have hcapped : Capped cfg key (runSteps (step cfg) initial moves) :=
    Pool.invariant (fun _ c hp hok => hp.spawn c hok)
      (fun _ _ _ _ hp hnext hok => hp.run hnext hok) h
      (capped_initial cfg key)
  exact (Nat.le_add_right ..).trans hcapped.bound

def childOf (key toolCallId : String) : Registration :=
  ⟨"fm_tts", toolCallId, some key, none, none, none, false⟩

/-- Two registrations of one session, of which each counts before either enters its task. -/
def simultaneousCounts : List (Move Call Reading) :=
  Move.alone 0 (.register (childOf "s" "tc0")) (Reading.after 1) 3 ++
    Move.alone 1 (.register (childOf "s" "tc1")) (Reading.after 1) 3 ++
    [.run 0 (Reading.after 1), .run 1 (Reading.after 1)]

/-- With room for two, both registrations keep room, and both tasks are active. -/
theorem fanout_capped_simultaneousCounts :
    let s := (runSteps (step (configOf 2 Nat.two_pos)) initial simultaneousCounts).shared
    activeChildren s "s" = 2 ∧ activeChildren s "s" ≤ 2 :=
  ⟨by decide +kernel, fanout_capped (configOf 2 Nat.two_pos) "s" simultaneousCounts
    (by decide +kernel)⟩

/-- **With room for one, both registrations are let in.** -/
theorem simultaneous_counts_exceed :
    let cfg := configOf 1 Nat.one_pos
    cfg.maxChildrenPerParent = 1 ∧
      activeChildren (runSteps (step cfg) initial simultaneousCounts).shared "s" = 2 := by
  decide +kernel

end Octos.Tasks
