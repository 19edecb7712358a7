import Mathlib.Data.List.ReduceOption
import Octos.Ledger.Goals

/-!
# Clearing a goal and its late charges

A cleared goal is stamped from the snapshot taken when it was cleared, and the charges of turns that
were still running are settled on top of the counters of that snapshot. The stamp and the charges
arrive in any order, and the stamp may arrive more than once. Both fold the counters of the snapshot
into the row with a maximum. So what a row owes to the snapshot is there after the first arrival,
whichever it is, and the row with the snapshot folded in grows by the charges alone.

## Main results

* `merged_run`: the row after any arrivals
* `clear_and_charges_commute`: every order of arrival ends in the same row
-/

namespace Octos.Ledger

open GoalLedger List SqlNum

/-- The charge of a turn that ended after its goal was cleared. -/
structure Charge where
  tokensDelta : UInt64
  timeDelta : UInt64
  updatedAtMs : UInt64
  deriving DecidableEq

/-- The call of an arrival: the stamp, or the settlement of a charge on the frozen counters. -/
def arrivalWrite (goal : Goal) : Option Charge → Write
  | none => .stampGoalCleared goal
  | some ch => .settleClearedGoalCostDelta goal.goalId goal.tokensUsed ch.tokensDelta
      goal.timeUsedSeconds ch.timeDelta ch.updatedAtMs

def chargedTokens (ds : List (Option Charge)) : ℕ :=
  (ds.reduceOption.map fun ch => ch.tokensDelta.toNat).sum

def chargedTime (ds : List (Option Charge)) : ℕ :=
  (ds.reduceOption.map fun ch => ch.timeDelta.toNat).sum

/-- The latest of the given timestamp and those of the charges among the arrivals. -/
def latest (ds : List (Option Charge)) (t : ℕ) : ℕ :=
  (ds.reduceOption.map fun ch => ch.updatedAtMs.toNat).foldr max t

/-- The numbers of a clear and its charges are integers of the database. -/
structure ClearFits (r : GoalRow) (goal : Goal) (charges : List Charge) : Prop where
  tokenBudget : goal.tokenBudget.toNat < 2 ^ 63
  revision : goal.revision.toNat < 2 ^ 63
  createdAtMs : goal.createdAtMs.toNat < 2 ^ 63
  updatedAtMs : goal.updatedAtMs.toNat < 2 ^ 63
  charged : ∀ ch ∈ charges, ch.updatedAtMs.toNat < 2 ^ 63
  tokens : max r.tokensUsed.val goal.tokensUsed.toNat +
    (charges.map fun ch => ch.tokensDelta.toNat).sum < 2 ^ 63
  time : max r.timeUsedSeconds.val goal.timeUsedSeconds.toNat +
    (charges.map fun ch => ch.timeDelta.toNat).sum < 2 ^ 63

/-! ## A counter -/

/-- A counter that started at `start` and took the base and the charges: the base is there after the
first arrival, and with the base folded in it has grown by the charges. -/
structure Counted (start base charged : ℕ) (arrived : Prop) (now : ℕ) : Prop where
  folded : max now base = max start base + charged
  floor : arrived → base ≤ now

namespace Counted

variable {start base charged now : ℕ} {arrived : Prop}

theorem init (h : ¬ arrived) : Counted start base 0 arrived start :=
  ⟨rfl, fun ha => absurd ha h⟩

variable (h : Counted start base charged arrived now)
include h

theorem stamp : Counted start base charged True (max now base) := by
  refine ⟨?_, fun _ => le_max_right now base⟩
  rw [max_assoc, max_self]
  exact h.folded

theorem charge (d : ℕ) : Counted start base (charged + d) True (max now base + d) := by
  have hbase : base ≤ max now base + d := le_trans (le_max_right now base) (Nat.le_add_right _ d)
  refine ⟨?_, fun _ => hbase⟩
  rw [max_eq_left hbase, h.folded, Nat.add_assoc]

theorem eq (ha : arrived) : now = max start base + charged := by
  rw [← h.folded, max_eq_left (h.floor ha)]

end Counted

/-! ## Arrivals -/

section

variable (ds : List (Option Charge))
include ds

@[simp] theorem chargedTokens_stamp : chargedTokens (ds ++ [none]) = chargedTokens ds := by
  simp [chargedTokens, reduceOption_append]

variable (ch : Charge)

@[simp] theorem chargedTokens_charge :
    chargedTokens (ds ++ [some ch]) = chargedTokens ds + ch.tokensDelta.toNat := by
  simp [chargedTokens, reduceOption_append]

@[simp] theorem chargedTime_stamp : chargedTime (ds ++ [none]) = chargedTime ds := by
  simp [chargedTime, reduceOption_append]

@[simp] theorem chargedTime_charge :
    chargedTime (ds ++ [some ch]) = chargedTime ds + ch.timeDelta.toNat := by
  simp [chargedTime, reduceOption_append]

end

section

variable (ds : List (Option Charge))

@[simp] theorem latest_stamp (t : ℕ) : latest (ds ++ [none]) t = latest ds t := by
  simp [latest, reduceOption_append]

@[simp] theorem latest_charge (ch : Charge) (t : ℕ) :
    latest (ds ++ [some ch]) t = max (latest ds t) ch.updatedAtMs.toNat := by
  simp only [latest, reduceOption_append, map_append, foldr_append]
  change (List.map _ ds.reduceOption).foldr max (max ch.updatedAtMs.toNat t) = _
  rw [max_comm, foldr_assoc]

theorem latest_max (t x : ℕ) : latest ds (max t x) = max (latest ds t) x := foldr_assoc

end

/-- The row after the arrivals `ds`: what the stamp sets is set once a stamp has arrived, the
counters have taken base and charges, and the timestamp is the latest so far. -/
structure Merged (r c : GoalRow) (ds : List (Option Charge)) (row : GoalRow) : Prop where
  goalId : row.goalId = r.goalId
  revision : row.revision = r.revision
  createdAtMs : row.createdAtMs = r.createdAtMs
  objective : row.objective = if none ∈ ds then c.objective else r.objective
  tokenBudget : row.tokenBudget = if none ∈ ds then c.tokenBudget else r.tokenBudget
  continuationsUsed : row.continuationsUsed =
    if none ∈ ds then max r.continuationsUsed c.continuationsUsed else r.continuationsUsed
  status : row.status =
    if r.status = "complete" then "complete" else if none ∈ ds then "cleared" else r.status
  tokensUsed : Counted r.tokensUsed.val c.tokensUsed.val (chargedTokens ds) (ds ≠ [])
    row.tokensUsed.val
  timeUsedSeconds : Counted r.timeUsedSeconds.val c.timeUsedSeconds.val (chargedTime ds) (ds ≠ [])
    row.timeUsedSeconds.val
  updatedAtMs : row.updatedAtMs.val =
    latest ds (if none ∈ ds then max r.updatedAtMs.val c.updatedAtMs.val else r.updatedAtMs.val)

namespace Merged

variable {r c row row' : GoalRow} {ds ds' : List (Option Charge)}

theorem init (r c : GoalRow) : Merged r c [] r where
  goalId := rfl
  revision := rfl
  createdAtMs := rfl
  objective := by simp
  tokenBudget := by simp
  continuationsUsed := by simp
  status := by
    split_ifs with h
    · exact h
    · simp at *
    · rfl
  tokensUsed := .init (by simp)
  timeUsedSeconds := .init (by simp)
  updatedAtMs := by simp [latest]

theorem stamp (h : Merged r c ds row)
    (harm : stampArm { c with status := "cleared" } row = some row') :
    Merged r c (ds ++ [none]) row' := by
  cases harm
  have hmem : (none : Option Charge) ∈ ds ++ [none] := by simp
  constructor
  case goalId => exact h.goalId
  case revision => exact h.revision
  case createdAtMs => exact h.createdAtMs
  case objective => rw [if_pos hmem]
  case tokenBudget => rw [if_pos hmem]
  case continuationsUsed =>
    apply ext
    rw [h.continuationsUsed, val_max]
    split_ifs
    · rw [val_max, max_assoc, max_self]
    · rw [val_max]
  case status =>
    rw [if_pos hmem, h.status]
    by_cases hr : r.status = "complete"
    · simp [hr]
    · split_ifs with h₁ h₂ <;> simp_all
  case tokensUsed =>
    rw [chargedTokens_stamp, val_max]
    simpa using h.tokensUsed.stamp
  case timeUsedSeconds =>
    rw [chargedTime_stamp, val_max]
    simpa using h.timeUsedSeconds.stamp
  case updatedAtMs =>
    rw [if_pos hmem, latest_stamp, val_max, h.updatedAtMs, ← latest_max]
    split_ifs
    · rw [max_assoc, max_self]
    · rfl

theorem charge (h : Merged r c ds row) {ch : Charge} {B D BT DT u : SqlNum}
    (hB : B.val = c.tokensUsed.val) (hD : D.val = ch.tokensDelta.toNat)
    (hBT : BT.val = c.timeUsedSeconds.val) (hDT : DT.val = ch.timeDelta.toNat)
    (hu : u.val = ch.updatedAtMs.toNat)
    (htokens : max r.tokensUsed.val c.tokensUsed.val + chargedTokens (ds ++ [some ch]) < 2 ^ 63)
    (htime : max r.timeUsedSeconds.val c.timeUsedSeconds.val +
      chargedTime (ds ++ [some ch]) < 2 ^ 63)
    (harm : settleArm B D BT DT u row = some row') : Merged r c (ds ++ [some ch]) row' := by
  cases harm
  have hmem : none ∈ ds ++ [some ch] ↔ none ∈ ds := by simp
  constructor
  case goalId => exact h.goalId
  case revision => exact h.revision
  case createdAtMs => exact h.createdAtMs
  case objective => simpa only [hmem] using h.objective
  case tokenBudget => simpa only [hmem] using h.tokenBudget
  case continuationsUsed => simpa only [hmem] using h.continuationsUsed
  case status => simpa only [hmem] using h.status
  case tokensUsed =>
    have hfold := h.tokensUsed.folded
    rw [chargedTokens_charge] at htokens ⊢
    rw [val_add_of_lt, val_max, hB, hD]
    · simpa using h.tokensUsed.charge ch.tokensDelta.toNat
    · rw [val_max, hB, hD]
      omega
  case timeUsedSeconds =>
    have hfold := h.timeUsedSeconds.folded
    rw [chargedTime_charge] at htime ⊢
    rw [val_add_of_lt, val_max, hBT, hDT]
    · simpa using h.timeUsedSeconds.charge ch.timeDelta.toNat
    · rw [val_max, hBT, hDT]
      omega
  case updatedAtMs =>
    rw [latest_charge, val_max, hu, h.updatedAtMs]
    simp

theorem unique (h : Merged r c ds row) (h' : Merged r c ds' row') (hs : none ∈ ds)
    (hs' : none ∈ ds') (hperm : ds.reduceOption.Perm ds'.reduceOption) : row = row' := by
  have hne : ds ≠ [] := ne_nil_of_mem hs
  have hne' : ds' ≠ [] := ne_nil_of_mem hs'
  have htokens : chargedTokens ds = chargedTokens ds' := (hperm.map _).sum_eq
  have htime : chargedTime ds = chargedTime ds' := (hperm.map _).sum_eq
  have hlatest : ∀ t, latest ds t = latest ds' t := fun t => (hperm.map _).foldr_eq t
  have hstamped : ∀ {α : Type} (x y : α), (if none ∈ ds then x else y) =
      if none ∈ ds' then x else y :=
    fun x y => by rw [if_pos hs, if_pos hs']
  ext
  case goalId => rw [h.goalId, h'.goalId]
  case revision => rw [h.revision, h'.revision]
  case createdAtMs => rw [h.createdAtMs, h'.createdAtMs]
  case objective => rw [h.objective, h'.objective, hstamped]
  case tokenBudget => rw [h.tokenBudget, h'.tokenBudget, hstamped]
  case continuationsUsed => rw [h.continuationsUsed, h'.continuationsUsed, hstamped]
  case status => rw [h.status, h'.status, hstamped]
  case tokensUsed =>
    apply ext
    rw [h.tokensUsed.eq hne, h'.tokensUsed.eq hne', htokens]
  case timeUsedSeconds =>
    apply ext
    rw [h.timeUsedSeconds.eq hne, h'.timeUsedSeconds.eq hne', htime]
  case updatedAtMs =>
    apply ext
    rw [h.updatedAtMs, h'.updatedAtMs, hlatest, hstamped]

end Merged

/-! ## Runs of arrivals -/

theorem bindU64_of_lt {n : UInt64} (h : n.toNat < 2 ^ 63) : bindU64 n = .ok ⟨n.toNat, .inl h⟩ :=
  bindU64_eq_ok.mpr (ofU64_of_lt h)

variable {r c row : GoalRow} {goal : Goal}

theorem ClearFits.bindGoal {charges : List Charge} (h : ClearFits r goal charges) :
    ∃ c, bindGoal goal = .ok c ∧ c.goalId = goal.goalId ∧
      c.tokensUsed.val = goal.tokensUsed.toNat ∧
      c.timeUsedSeconds.val = goal.timeUsedSeconds.toNat ∧
      c.updatedAtMs.val = goal.updatedAtMs.toNat := by
  have htokens : goal.tokensUsed.toNat < 2 ^ 63 := by
    have := h.tokens
    omega
  have htime : goal.timeUsedSeconds.toNat < 2 ^ 63 := by
    have := h.time
    omega
  simp only [Ledger.bindGoal, bindU64_of_lt htokens, bindU64_of_lt htime,
    bindU64_of_lt h.tokenBudget, bindU64_of_lt h.revision, bindU64_of_lt h.createdAtMs,
    bindU64_of_lt h.updatedAtMs]
  exact ⟨_, rfl, rfl, rfl, rfl, rfl⟩

variable {L : GoalLedger}

theorem exec_stamp_get (hc : bindGoal goal = .ok c)
    (hid : c.goalId = goal.goalId) (hrow : L.goals.get goal.goalId = some row) :
    ∃ row', ((Write.stampGoalCleared goal).exec L).goals.get goal.goalId = some row' ∧
      stampArm { c with status := "cleared" } row = some row' := by
  simp only [Write.exec, Write.perform_stamp hc, insertGoal, hid, hrow, stampArm,
    Table.get_insert_self]
  exact ⟨_, rfl, rfl⟩

theorem exec_settle_get {g : String} {b d bt dt at' : UInt64}
    {B D BT DT u : SqlNum} (hb : bindU64 b = .ok B) (hd : bindU64 d = .ok D)
    (hbt : bindU64 bt = .ok BT) (hdt : bindU64 dt = .ok DT) (hu : bindU64 at' = .ok u)
    (hrow : L.goals.get g = some row) :
    ∃ row', ((Write.settleClearedGoalCostDelta g b d bt dt at').exec L).goals.get g = some row' ∧
      settleArm B D BT DT u row = some row' := by
  simp only [Write.exec, Write.perform_settle g hb hd hbt hdt hu, updateGoal, hrow,
    Option.bind_some, settleArm, Table.get_insert_self]
  exact ⟨_, rfl, rfl⟩

variable (ds ds' : List (Option Charge))

theorem chargedTokens_append :
    chargedTokens (ds ++ ds') = chargedTokens ds + chargedTokens ds' := by
  simp [chargedTokens, reduceOption_append]

theorem chargedTime_append : chargedTime (ds ++ ds') = chargedTime ds + chargedTime ds' := by
  simp [chargedTime, reduceOption_append]

theorem merged_run (hrow : L.goals.get goal.goalId = some r)
    (hc : bindGoal goal = .ok c) (hid : c.goalId = goal.goalId)
    (hct : c.tokensUsed.val = goal.tokensUsed.toNat)
    (hcs : c.timeUsedSeconds.val = goal.timeUsedSeconds.toNat) (ds : List (Option Charge))
    (hcharged : ∀ ch, some ch ∈ ds → ch.updatedAtMs.toNat < 2 ^ 63)
    (htokens : max r.tokensUsed.val c.tokensUsed.val + chargedTokens ds < 2 ^ 63)
    (htime : max r.timeUsedSeconds.val c.timeUsedSeconds.val + chargedTime ds < 2 ^ 63) :
    ∃ row, (runSteps (fun L w => w.exec L) L (ds.map (arrivalWrite goal))).goals.get goal.goalId =
        some row ∧ Merged r c ds row := by
  induction ds using List.reverseRecOn with
  | nil => exact ⟨r, hrow, .init r c⟩
  | append_singleton ds d ih =>
    have htokens' := htokens
    have htime' := htime
    rw [chargedTokens_append] at htokens'
    rw [chargedTime_append] at htime'
    obtain ⟨row, hget, hmerged⟩ := ih (fun ch hch => hcharged ch (by simp [hch])) (by omega)
      (by omega)
    rw [map_append, map_singleton, runSteps_snoc]
    cases d with
    | none =>
      obtain ⟨row', hget', harm⟩ := exec_stamp_get hc hid hget
      exact ⟨row', hget', hmerged.stamp harm⟩
    | some ch =>
      -- the parameters of the charge are in range because the totals are
      have hd : ch.tokensDelta.toNat < 2 ^ 63 := by
        rw [chargedTokens_charge] at htokens
        omega
      have hdt : ch.timeDelta.toNat < 2 ^ 63 := by
        rw [chargedTime_charge] at htime
        omega
      have hb : goal.tokensUsed.toNat < 2 ^ 63 := by omega
      have hbt : goal.timeUsedSeconds.toNat < 2 ^ 63 := by omega
      obtain ⟨row', hget', harm⟩ := exec_settle_get (bindU64_of_lt hb) (bindU64_of_lt hd)
        (bindU64_of_lt hbt) (bindU64_of_lt hdt) (bindU64_of_lt (hcharged ch (by simp))) hget
      exact ⟨row', hget', hmerged.charge hct.symm rfl hcs.symm rfl rfl htokens htime harm⟩

theorem reduceOption_arrivals (n : ℕ) (charges : List Charge) :
    (List.replicate n none ++ charges.map some).reduceOption = charges := by
  have hstamps : (List.replicate n (none : Option Charge)).reduceOption = [] := by
    induction n with
    | zero => rfl
    | succ n ih => rw [replicate_succ, reduceOption_cons_of_none, ih]
  have hcharges : (charges.map some).reduceOption = charges := by
    induction charges with
    | nil => rfl
    | cons ch charges ih => rw [map_cons, reduceOption_cons_of_some, ih]
  rw [reduceOption_append, hstamps, hcharges, nil_append]

/-- **Every order of arrival ends in the same row**: any number of identical stamps, at least one,
and the charges, in any order. Its counters are those of the row or of the snapshot, whichever are
greater, and all charges; its timestamp is the latest of all. -/
theorem clear_and_charges_commute {L : GoalLedger} {goal : Goal} {r : GoalRow}
    (hrow : L.goals.get goal.goalId = some r) (charges : List Charge)
    (hfits : ClearFits r goal charges) :
    ∃ row,
      (∀ (stamps : ℕ) (ds : List (Option Charge)),
        ds.Perm (List.replicate (stamps + 1) none ++ charges.map some) →
        (runSteps (fun L w => w.exec L) L (ds.map (arrivalWrite goal))).goals.get goal.goalId =
          some row) ∧
      row.tokensUsed.val = max r.tokensUsed.val goal.tokensUsed.toNat +
        (charges.map fun ch => ch.tokensDelta.toNat).sum ∧
      row.timeUsedSeconds.val = max r.timeUsedSeconds.val goal.timeUsedSeconds.toNat +
        (charges.map fun ch => ch.timeDelta.toNat).sum ∧
      row.status = (if r.status = "complete" then "complete" else "cleared") ∧
      row.updatedAtMs.val = (charges.map fun ch => ch.updatedAtMs.toNat).foldr max
        (max r.updatedAtMs.val goal.updatedAtMs.toNat) := by
  obtain ⟨c, hc, hid, hct, hcs, hcu⟩ := hfits.bindGoal
  -- what the arrivals charge is what the charges do, in whatever order they come
  have harrived : ∀ (stamps : ℕ) (ds : List (Option Charge)),
      ds.Perm (List.replicate (stamps + 1) none ++ charges.map some) →
      none ∈ ds ∧ ds.reduceOption.Perm charges ∧
        ∃ row, (runSteps (fun L w => w.exec L) L (ds.map (arrivalWrite goal))).goals.get
          goal.goalId = some row ∧ Merged r c ds row := by
    intro stamps ds hperm
    have hcharges : ds.reduceOption.Perm charges := by
      have h : ds.reduceOption.Perm _ := hperm.filterMap id
      rwa [← List.reduceOption, reduceOption_arrivals] at h
    refine ⟨hperm.mem_iff.mpr (by simp), hcharges, ?_⟩
    have hsum : ∀ f : Charge → ℕ, (ds.reduceOption.map f).sum = (charges.map f).sum :=
      fun f => (hcharges.map f).sum_eq
    refine merged_run hrow hc hid hct hcs ds ?_ ?_ ?_
    · intro ch hch
      exact hfits.charged ch (hcharges.mem_iff.mp (reduceOption_mem_iff.mpr hch))
    · rw [chargedTokens, hsum, hct]
      exact hfits.tokens
    · rw [chargedTime, hsum, hcs]
      exact hfits.time
  obtain ⟨hmem, hcharges, row, -, hmerged⟩ := harrived 0 _ (List.Perm.refl _)
  have hne := ne_nil_of_mem hmem
  refine ⟨row, ?_, ?_, ?_, ?_, ?_⟩
  · intro stamps ds hperm
    obtain ⟨hmem', hcharges', row', hget', hmerged'⟩ := harrived stamps ds hperm
    rw [hget', hmerged'.unique hmerged hmem' hmem (hcharges'.trans hcharges.symm)]
  · rw [hmerged.tokensUsed.eq hne, hct, chargedTokens, (hcharges.map _).sum_eq]
  · rw [hmerged.timeUsedSeconds.eq hne, hcs, chargedTime, (hcharges.map _).sum_eq]
  · rw [hmerged.status, if_pos hmem]
  · rw [hmerged.updatedAtMs, if_pos hmem, hcu]
    exact (hcharges.map _).foldr_eq _

/-- A goal cleared with more tokens and less time than its row has. -/
def clearedGoal : Goal where
  goalId := "g"
  objective := "ship"
  status := "cleared"
  tokensUsed := 40
  tokenBudget := 100
  timeUsedSeconds := 3
  continuationsUsed := 2
  revision := 0
  createdAtMs := 1
  updatedAtMs := 20

/-- The ledger before the clear: its row lags behind in tokens. -/
def laggingLedger : GoalLedger :=
  (Write.createGoal { clearedGoal with
    status := "active", tokensUsed := 10, timeUsedSeconds := 5, updatedAtMs := 7 }).exec
    emptyLedger

theorem clear_and_charges_commute_lagging :
    ∃ r, laggingLedger.goals.get "g" = some r ∧
      ClearFits r clearedGoal [⟨5, 1, 30⟩, ⟨2, 0, 25⟩] ∧
      ∃ row,
        (∀ (stamps : ℕ) (ds : List (Option Charge)),
          ds.Perm (List.replicate (stamps + 1) none ++ [⟨5, 1, 30⟩, ⟨2, 0, 25⟩].map some) →
          (runSteps (fun L w => w.exec L) laggingLedger
            (ds.map (arrivalWrite clearedGoal))).goals.get "g" = some row) ∧
        row.tokensUsed.val = 47 ∧ row.timeUsedSeconds.val = 6 ∧ row.status = "cleared" ∧
        row.updatedAtMs.val = 30 := by
  obtain ⟨r, hrow, htokens, htime, hstatus, hupdated⟩ :
      ∃ r, laggingLedger.goals.get "g" = some r ∧ r.tokensUsed.val = 10 ∧
        r.timeUsedSeconds.val = 5 ∧ r.status = "active" ∧ r.updatedAtMs.val = 7 :=
    ⟨_, rfl, by decide, by decide, by decide, by decide⟩
  have hfits : ClearFits r clearedGoal [⟨5, 1, 30⟩, ⟨2, 0, 25⟩] :=
    ⟨by decide, by decide, by decide, by decide, by decide, by rw [htokens]; decide,
      by rw [htime]; decide⟩
  obtain ⟨row, hsame, e₁, e₂, e₃, e₄⟩ :=
    clear_and_charges_commute hrow [⟨5, 1, 30⟩, ⟨2, 0, 25⟩] hfits
  rw [htokens] at e₁
  rw [htime] at e₂
  rw [hstatus] at e₃
  rw [hupdated] at e₄
  exact ⟨r, hrow, hfits, row, hsame, e₁, e₂, e₃, e₄⟩

end Octos.Ledger
