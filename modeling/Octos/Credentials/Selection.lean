import Octos.Credentials.Pool
import Mathlib.Data.Nat.ModEq

/-!
# What a pool hands out

The four strategies differ in which credential they take and in what they remember of it, and agree
in that they take one whenever there is one to take. `Picks` says this of a result, each strategy is
shown to pick, and `acquire` inherits it. The round-robin loop needs that its additions do not
overflow: a cursor is below the length of a vector, in every pool and in every database that pools
have written.

## Main results

* `select_picks`: every strategy takes a selectable credential when there is one
* `acquire_iff_selectable`: when `acquire` succeeds, after every history
-/

namespace Octos.Credentials

open List

/-! ## Availability -/

namespace CredentialPool

variable (p : CredentialPool)

def Quarantined (id : String) : Prop := id ∈ p.corruptState

variable (now : UInt64)

section

variable (id : String)

def InCooldown : Prop := now < (p.stateOf id).cooldownUntilUs

/-- The credential was handed out by `FillFirst` a moment ago. -/
def Reserved : Prop := now < (p.stateOf id).reservedUntilUs

def Available : Prop := ¬ p.Quarantined id ∧ ¬ p.InCooldown now id

/-- The credential is available, and `FillFirst` does not hold it back. -/
def Selectable : Prop :=
  p.Available now id ∧ (p.strategy = .fillFirst → ¬ p.Reserved now id)

instance decidableAvailable : Decidable (p.Available now id) :=
  inferInstanceAs (Decidable (¬ id ∈ p.corruptState ∧ ¬ now < (p.stateOf id).cooldownUntilUs))

instance decidableSelectable : Decidable (p.Selectable now id) :=
  inferInstanceAs (Decidable (p.Available now id ∧
    (p.strategy = .fillFirst → ¬ now < (p.stateOf id).reservedUntilUs)))

end

variable {p} {now : UInt64} {c : Credential}

theorem offers_iff : p.offers now c = true ↔ p.Available now c.id := by
  simp only [offers, stateForSelection, Available, Quarantined, InCooldown]
  by_cases h : c.id ∈ p.corruptState <;> simp [h, CredentialState.isCooledDown]

theorem offersFirst_iff :
    p.offersFirst now c = true ↔ p.Available now c.id ∧ ¬ p.Reserved now c.id := by
  simp only [offersFirst, stateForSelection, Available, Quarantined, InCooldown, Reserved]
  by_cases h : c.id ∈ p.corruptState <;>
    simp [h, CredentialState.isCooledDown, CredentialState.isReserved]

end CredentialPool

/-! ## Picking -/

/-- The result is the id of a credential on offer, or nothing is on offer. -/
def Picks (cs : List Credential) (offer : Credential → Bool) : Option String → Prop
  | some id => ∃ c ∈ cs, offer c = true ∧ c.id = id
  | none => ∀ c ∈ cs, ¬ offer c = true

theorem exists_rotation {idx len : ℕ} (h : idx < len) (start : ℕ) :
    ∃ step < len, (start + step) % len = idx := by
  have hpos : 0 < len := by omega
  refine ⟨(idx + (len - start % len)) % len, Nat.mod_lt _ hpos, ?_⟩
  have hlt := Nat.mod_lt start hpos
  have hdiv := Nat.div_add_mod start len
  have hsum : start + (idx + (len - start % len)) = idx + len * (start / len + 1) := by
    rw [Nat.mul_add, Nat.mul_one]
    omega
  rw [Nat.add_mod_mod, hsum, Nat.add_mul_mod_self_left, Nat.mod_eq_of_lt h]

namespace CredentialPool

variable {p : CredentialPool} {now : UInt64} {disk : Except String Unit}

theorem selectFillFirst_picks :
    Picks p.credentials (p.offersFirst now) (p.selectFillFirst now).1 := by
  rw [selectFillFirst]
  cases hfind : p.credentials.find? (p.offersFirst now) with
  | none => exact find?_eq_none.mp hfind
  | some c => exact ⟨c, mem_of_find?_eq_some hfind, find?_some hfind, rfl⟩

/-- The cursor and the number of credentials are below `2 ^ 63`, so that their sum is a `u64`. -/
def Bounded (p : CredentialPool) : Prop := p.cursor.toNat < 2 ^ 63 ∧ p.credentials.length < 2 ^ 63

theorem slot_eq (h : p.Bounded) {step : ℕ} (hstep : step < p.credentials.length) :
    p.slot step = (p.cursor.toNat + step) % p.credentials.length := by
  obtain ⟨hcursor, hlen⟩ := h
  have hsum : (p.cursor.toNat + step) % 2 ^ 64 = p.cursor.toNat + step := by omega
  have hofNat : ∀ n < 2 ^ 63, (UInt64.ofNat n).toNat = n := fun n hn => by
    rw [UInt64.toNat_ofNat']
    omega
  rw [slot, UInt64.toNat_mod, UInt64.toNat_add, hofNat _ (hstep.trans hlen), hofNat _ hlen, hsum]

theorem selectRoundRobin_picks (h : p.Bounded) :
    Picks p.credentials (p.offers now) (p.selectRoundRobin now disk).1 := by
  rw [selectRoundRobin]
  split
  · next hfind =>
    -- every index is looked at, so nothing is on offer at any of them
    intro c hc hoffer
    obtain ⟨idx, hidx, rfl⟩ := getElem_of_mem hc
    obtain ⟨step, hstep, hslot⟩ := exists_rotation hidx p.cursor.toNat
    have hnot := find?_eq_none.mp hfind step (mem_range.mpr hstep)
    rw [slot_eq h hstep, hslot, getElem?_eq_getElem hidx] at hnot
    exact hnot hoffer
  · next step hfind =>
    have hany := find?_some hfind
    cases hget : p.credentials[p.slot step]? with
    | none =>
      rw [hget] at hany
      cases hany
    | some c =>
      rw [hget] at hany
      exact ⟨c, mem_of_getElem? hget, hany, rfl⟩

theorem selectRandom_picks : Picks p.credentials (p.offers now) (p.selectRandom now).1 := by
  simp only [selectRandom]
  split
  · next hempty =>
    intro c hc hoffer
    have hmem := mem_filter.mpr ⟨hc, hoffer⟩
    rw [List.isEmpty_iff.mp hempty] at hmem
    cases hmem
  · next hne =>
    have hpos : 0 < (p.credentials.filter (p.offers now)).length :=
      length_pos_iff.mpr fun h => hne (List.isEmpty_iff.mpr h)
    rw [getElem?_eq_getElem (Nat.mod_lt _ hpos)]
    obtain ⟨hmem, hoffer⟩ := mem_filter.mp (getElem_mem (Nat.mod_lt _ hpos))
    exact ⟨_, hmem, hoffer, rfl⟩

theorem foldl_lessUsed (p : CredentialPool) (cs : List Credential) (b : Credential) :
    ∃ c ∈ b :: cs, cs.foldl p.lessUsed (some b) = some c := by
  induction cs generalizing b with
  | nil => exact ⟨b, mem_cons_self, rfl⟩
  | cons c cs ih =>
    rw [foldl_cons]
    obtain ⟨d, hd, hstep⟩ : ∃ d ∈ [b, c], p.lessUsed (some b) c = some d := by
      simp only [lessUsed]
      split_ifs
      · exact ⟨c, by simp, rfl⟩
      · exact ⟨b, by simp, rfl⟩
    rw [hstep]
    obtain ⟨e, he, heq⟩ := ih d
    refine ⟨e, ?_, heq⟩
    grind

theorem selectLeastUsed_picks : Picks p.credentials (p.offers now) (p.selectLeastUsed now).1 := by
  rw [selectLeastUsed]
  cases hfilter : p.credentials.filter (p.offers now) with
  | nil =>
    intro c hc hoffer
    have hmem := mem_filter.mpr ⟨hc, hoffer⟩
    rw [hfilter] at hmem
    cases hmem
  | cons b cs =>
    obtain ⟨c, hc, hfold⟩ := p.foldl_lessUsed cs b
    rw [← hfilter] at hc
    obtain ⟨hmem, hoffer⟩ := mem_filter.mp hc
    simp only [foldl_cons, lessUsed]
    rw [hfold]
    exact ⟨c, hmem, hoffer, rfl⟩

variable (now disk) in
/-- **Every strategy takes a selectable credential when there is one.** -/
theorem select_picks (h : p.Bounded) :
    Picks p.credentials (fun c => decide (p.Selectable now c.id)) (p.select now disk).1 := by
  have hoffers : p.strategy ≠ .fillFirst →
      p.offers now = fun c => decide (p.Selectable now c.id) := by
    intro hne
    funext c
    rw [Bool.eq_iff_iff, offers_iff, decide_eq_true_iff, Selectable, and_iff_left (absurd · hne)]
  rw [select]
  split
  · next hs =>
    have hfirst : p.offersFirst now = fun c => decide (p.Selectable now c.id) := by
      funext c
      rw [Bool.eq_iff_iff, offersFirst_iff, decide_eq_true_iff, Selectable, imp_iff_right hs]
    exact hfirst ▸ selectFillFirst_picks
  · next hs => exact hoffers (by simp [hs]) ▸ selectRoundRobin_picks h
  · next hs => exact hoffers (by simp [hs]) ▸ selectRandom_picks
  · next hs => exact hoffers (by simp [hs]) ▸ selectLeastUsed_picks

/-! ## Acquiring -/

theorem Selected.credentials {q : CredentialPool} (h : Selected p now disk q) :
    q.credentials = p.credentials := by
  cases h with
  | same | reserved | drawn => rfl
  | moved => cases disk <;> rfl

variable {reason : String} {c : Credential}

theorem acquire_ok (h : p.Bounded) (hok : (p.acquire reason now disk).1 = .ok c) :
    c ∈ p.credentials ∧ p.Selectable now c.id := by
  have hpicks := select_picks now disk h
  rw [acquire] at hok
  split at hok
  · cases hok
  · next id q hselect =>
    have hcreds := (p.selected_select now disk).credentials
    rw [hselect] at hcreds
    split at hok
    · cases hok
    · next d hfind =>
      cases hok
      rw [hselect] at hpicks
      obtain ⟨b, -, hb, hid⟩ := hpicks
      have hd : c.id = id := by simpa using find?_some hfind
      refine ⟨hcreds ▸ mem_of_find?_eq_some hfind, ?_⟩
      rw [hd, ← hid]
      exact of_decide_eq_true hb

theorem acquire_succeeds (h : p.Bounded) (hc : c ∈ p.credentials) (hsel : p.Selectable now c.id) :
    ∃ d, (p.acquire reason now disk).1 = .ok d := by
  have hpicks := select_picks now disk h
  rw [acquire]
  split
  · next q hselect =>
    rw [hselect] at hpicks
    exact absurd (decide_eq_true hsel) (hpicks c hc)
  · next id q hselect =>
    have hcreds := (p.selected_select now disk).credentials
    rw [hselect] at hcreds
    rw [hselect] at hpicks
    obtain ⟨b, hb, -, hid⟩ := hpicks
    cases hfind : q.credentials.find? (·.id == id) with
    | none =>
      rw [hcreds] at hfind
      exact absurd (beq_iff_eq.mpr hid) (find?_eq_none.mp hfind b hb)
    | some d => exact ⟨d, rfl⟩

/-! ## Cursors stay small -/

/-- The pool rotates as before: the cursors are the same, and there are as many credentials. -/
structure SameRotation (p q : CredentialPool) : Prop where
  cursor : q.cursor = p.cursor
  length : q.credentials.length = p.credentials.length
  cursors : q.db.cursors = p.db.cursors

section

variable (p : CredentialPool)

theorem SameRotation.trans {p q r : CredentialPool} (h : SameRotation p q) (h' : SameRotation q r) :
    SameRotation p r :=
  ⟨h'.cursor.trans h.cursor, h'.length.trans h.length, h'.cursors.trans h.cursors⟩

theorem sameRotation_persistState (disk : Except String Unit) (s : CredentialState) :
    SameRotation p (p.persistState disk s).2 := by
  cases disk <;> exact ⟨rfl, rfl, rfl⟩

theorem sameRotation_record (disk : Except String Unit) (id : String) (s : CredentialState) :
    SameRotation p (p.record disk id s).2 := by
  have hset : SameRotation p (p.setState id s) := ⟨rfl, rfl, rfl⟩
  exact hset.trans (sameRotation_persistState (p.setState id s) disk s)

variable (id secret : String)

theorem length_setSecret (cs : List Credential) : (setSecret id secret cs).length = cs.length := by
  induction cs with
  | nil => rfl
  | cons c cs ih =>
    rw [setSecret]
    split_ifs
    · rfl
    · rw [length_cons, length_cons, ih]

theorem sameRotation_withSecret : SameRotation p (p.withSecret id secret) :=
  ⟨rfl, length_setSecret id secret p.credentials, rfl⟩

end

end CredentialPool

/-- The cursors were written by pools. -/
def Database.Bounded (db : Database) : Prop :=
  ∀ name cursor, db.cursors.get name = some cursor → cursor.toNat < 2 ^ 63

namespace CredentialPool

variable {p q : CredentialPool} {now : UInt64} {disk : Except String Unit}

theorem bounded_of_sameRotation (h : SameRotation p q) (hp : p.Bounded ∧ p.db.Bounded) :
    q.Bounded ∧ q.db.Bounded := by
  obtain ⟨⟨hcursor, hlen⟩, hdb⟩ := hp
  refine ⟨⟨by rwa [h.cursor], by rwa [h.length]⟩, ?_⟩
  rw [Database.Bounded, h.cursors]
  exact hdb

theorem bounded_persistCursor {cursor : UInt64} (hcursor : cursor.toNat < 2 ^ 63)
    (hp : p.Bounded ∧ p.db.Bounded) :
    (p.persistCursor disk cursor).Bounded ∧ (p.persistCursor disk cursor).db.Bounded := by
  cases disk with
  | error => exact hp
  | ok =>
    refine ⟨hp.1, fun name c hc => ?_⟩
    exact Table.forall_insert (P := fun _ c => c.toNat < 2 ^ 63)
      (fun name c _ hget => hp.2 name c hget) hcursor name c hc

theorem bounded_of_selected (h : Selected p now disk q) (hp : p.Bounded ∧ p.db.Bounded) :
    q.Bounded ∧ q.db.Bounded := by
  cases h with
  | same | reserved | drawn => exact hp
  | @moved step next hstep hnext =>
    obtain ⟨⟨-, hlen⟩, hdb⟩ := hp
    -- the cursor is a remainder by the number of credentials
    have hsmall : next.toNat < 2 ^ 63 := by
      have hofNat : (UInt64.ofNat p.credentials.length).toNat = p.credentials.length := by
        rw [UInt64.toNat_ofNat']
        omega
      rw [hnext, UInt64.toNat_mod, hofNat]
      exact (Nat.mod_lt _ (by omega)).trans hlen
    exact bounded_persistCursor hsmall ⟨⟨hsmall, hlen⟩, hdb⟩

theorem bounded_of_applied {i : Input} (h : Applied p i q) (hp : p.Bounded ∧ p.db.Bounded) :
    q.Bounded ∧ q.db.Bounded := by
  cases h with
  | refused | repeated => exact hp
  | acquired events hselected =>
    have hbounded := bounded_of_selected hselected hp
    exact hbounded
  | rateLimited | used => exact bounded_of_sameRotation (sameRotation_record ..) hp
  | refreshed =>
    exact bounded_of_sameRotation ((sameRotation_withSecret (p.noteError _) _ _).trans
      (sameRotation_record ..)) hp
  | refreshFailed => exact bounded_of_sameRotation (sameRotation_record (p.noteError _) ..) hp
  | repaired => exact bounded_of_sameRotation ⟨rfl, rfl, rfl⟩ hp

end CredentialPool

theorem cursors_putState (states : List CredentialState) (db : Database) :
    (states.foldl Database.putState db).cursors = db.cursors := by
  induction states generalizing db with
  | nil => rfl
  | cons s states ih => exact ih (db.putState s)

theorem bounded_openPool {db : Database} {opts : PoolOptions} {now : UInt64} {p : CredentialPool}
    (h : openPool db opts now = .ok p) (hdb : db.Bounded) : p.Bounded ∧ p.db.Bounded := by
  rw [openPool] at h
  split_ifs at h
  obtain rfl := Except.ok.inj h
  refine ⟨⟨?_, opts.length_lt⟩, ?_⟩
  · cases hget : db.cursors.get opts.name with
    | none => exact (by decide : (0 : UInt64).toNat < 2 ^ 63)
    | some cursor => exact hdb opts.name cursor hget
  · rw [Database.Bounded, cursors_putState]
    exact hdb

namespace Machine

/-- The cursors are small, in the database and in the pool. -/
def Bounded : Machine → Prop
  | closed db => db.Bounded
  | opened pool => pool.Bounded ∧ pool.db.Bounded

theorem bounded_step (m : Machine) (i : Input) (h : m.Bounded) : (m.step i).Bounded := by
  have hdb : m.db.Bounded := by
    cases m with
    | closed => exact h
    | opened => exact h.2
  rw [step]
  split
  · rw [reopen]
    split
    · next p hp => exact bounded_openPool hp hdb
    · exact hdb
  · cases m with
    | closed => exact h
    | opened pool => exact CredentialPool.bounded_of_applied (pool.applied_apply i) h

theorem bounded_run {m : Machine} (h : m.Bounded) (history : List Input) :
    (runSteps step m history).Bounded :=
  runSteps_invariant bounded_step h history

end Machine

/-- **After every history of calls, `acquire` succeeds exactly when some credential of the pool is
neither quarantined nor cooled down nor, under `FillFirst`, reserved, and it returns such a
one.** -/
theorem acquire_iff_selectable (db : Database) (hdb : db.Bounded) (history : List Input)
    (pool : CredentialPool) (hpool : runSteps Machine.step (.closed db) history = .opened pool)
    (reason : String) (now : UInt64) (disk : Except String Unit) :
    ((∃ c, (pool.acquire reason now disk).1 = .ok c) ↔
      ∃ c ∈ pool.credentials, pool.Selectable now c.id) ∧
    ∀ c, (pool.acquire reason now disk).1 = .ok c →
      c ∈ pool.credentials ∧ pool.Selectable now c.id := by
  have hrun := Machine.bounded_run (m := .closed db) hdb history
  rw [hpool] at hrun
  refine ⟨⟨?_, ?_⟩, fun c hok => CredentialPool.acquire_ok hrun.1 hok⟩
  · rintro ⟨c, hok⟩
    exact ⟨c, CredentialPool.acquire_ok hrun.1 hok⟩
  · rintro ⟨c, hc, hsel⟩
    exact CredentialPool.acquire_succeeds hrun.1 hc hsel

/-! ## A reserved credential -/

/-- A file that no pool has written yet. -/
def Database.create : Database := ⟨Table.empty, Table.empty⟩

def oneKey (strategy : RotationStrategy) : PoolOptions where
  name := "main"
  credentials := [⟨"key-a", "secret-a"⟩]
  strategy := strategy
  defaultCooldownUs := defaultCooldown
  ids_nodup := by decide
  length_lt := by decide

/-- The pool is opened, and its credential is handed out. -/
def handedOut : List Input :=
  [⟨.reopen (oneKey .fillFirst), 1000000, .ok ()⟩, ⟨.acquire "initial_acquire", 2000000, .ok ()⟩]

theorem bounded_create : Database.create.Bounded := by
  intro name cursor h
  cases h

theorem acquire_iff_selectable_afterReservation :
    ∃ pool, runSteps Machine.step (.closed .create) handedOut = .opened pool ∧
      ((∃ c, (pool.acquire "initial_acquire" 8000000 (.ok ())).1 = .ok c) ↔
        ∃ c ∈ pool.credentials, pool.Selectable 8000000 c.id) ∧
      ∀ c, (pool.acquire "initial_acquire" 8000000 (.ok ())).1 = .ok c →
        c ∈ pool.credentials ∧ pool.Selectable 8000000 c.id :=
  ⟨_, rfl, acquire_iff_selectable .create bounded_create handedOut _ rfl ..⟩

/-- An available credential is refused while `FillFirst` holds it, and the error calls it cooled
down. -/
theorem reserved_is_refused :
    ∃ pool, runSteps Machine.step (.closed .create) handedOut = .opened pool ∧
      (∃ c ∈ pool.credentials, pool.Available 3000000 c.id) ∧
      (pool.acquire "initial_acquire" 3000000 (.ok ())).1 =
        .error "all credentials in pool `main` are cooled down" :=
  ⟨_, rfl, ⟨⟨"key-a", "secret-a"⟩, mem_singleton.mpr rfl, by decide⟩, rfl⟩

end Octos.Credentials
