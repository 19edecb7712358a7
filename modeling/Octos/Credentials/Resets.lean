import Octos.Credentials.Selection

/-!
# Advertised resets

A provider that limits the rate of a credential may say until when. The cooldown of the credential
lasts that long, in memory and in the database, so that neither another call nor a restart ends it,
unless a later report overwrites it: a report sets the cooldown and does not extend it, and so does
a refresh that fails. `Covers` says of a report that it does not fall short of a reset that was
advertised before.

## Main results

* `held_of_applied`, `held_openPool`: what keeps a credential held
* `reset_respected`: a credential is not handed out before its reset
* `failed_refresh_ends_cooldown`: a failed refresh ends a cooldown early
-/

namespace Octos.Credentials

open CredentialPool List Machine Table

/-! ## Rows and their keys -/

/-- Rows are under the ids they carry. -/
def Database.Keyed (db : Database) : Prop :=
  ∀ k s, db.states.get k = some (.parsed s) → s.id = k

/-- The state belongs to the credential, and its schema is known. -/
structure CredentialState.Of (id : String) (s : CredentialState) : Prop where
  id : s.id = id
  known : s.schemaVersion ≤ credentialPoolSchemaVersion

theorem CredentialState.of_new (id : String) : (CredentialState.new id).Of id :=
  ⟨rfl, UInt32.le_refl _⟩

/-- A readable row keeps the credential cooled down until a time. -/
def Database.Held (t : UInt64) (c : String) (db : Database) : Prop :=
  ∃ s, db.states.get c = some (.parsed s) ∧ s.schemaVersion ≤ credentialPoolSchemaVersion ∧
    t ≤ s.cooldownUntilUs

namespace CredentialPool

variable (p : CredentialPool)

/-- The rows in memory and in the database are those of their credentials. -/
structure Keyed : Prop where
  memory : ∀ k, (p.stateOf k).Of k
  disk : p.db.Keyed

/-- The credential is cooled down until a time, in memory and in the database. -/
structure Held (t : UInt64) (c : String) : Prop where
  healthy : c ∉ p.corruptState
  memory : p.configured c = true → t ≤ (p.stateOf c).cooldownUntilUs
  disk : p.db.Held t c

theorem stateOf_setState (id k : String) (s : CredentialState) :
    (p.setState id s).stateOf k = if k = id then s else p.stateOf k := by
  rw [stateOf, setState, get_insert]
  split_ifs <;> rfl

/-! ## Writing a row -/

section

variable {p : CredentialPool} {disk : Except String Unit} {id : String} {s : CredentialState}

theorem stateOf_record (k : String) :
    (p.record disk id s).2.stateOf k = if k = id then s else p.stateOf k := by
  rw [← stateOf_setState]
  cases disk <;> rfl

variable (p disk id s) in
theorem db_record : (p.record disk id s).2.db = p.db ∨
    (p.record disk id s).2.db = p.db.putState s := by
  cases disk with
  | error => exact .inl rfl
  | ok => exact .inr rfl

variable {db : Database}

theorem keyed_putState (h : db.Keyed) (s : CredentialState) : (db.putState s).Keyed := by
  refine fun k r hr => forall_insert
    (P := fun k row => ∀ r, row = .parsed r → r.id = k) ?_ ?_ k _ hr r rfl
  · rintro k' row - hget r rfl
    exact h k' r hget
  · rintro r hr
    cases hr
    rfl

theorem Keyed.record (h : p.Keyed) (hs : s.Of id) : (p.record disk id s).2.Keyed := by
  refine ⟨fun k => ?_, ?_⟩
  · rw [stateOf_record]
    split_ifs with hk
    · exact hk ▸ hs
    · exact h.memory k
  · rcases db_record p disk id s with hdb | hdb
    · rw [hdb]
      exact h.disk
    · rw [hdb]
      exact keyed_putState h.disk s

variable {t : UInt64} {c : String}

theorem held_putState_self (db : Database) (hs : s.Of c)
    (ht : t ≤ s.cooldownUntilUs) : (db.putState s).Held t c := by
  refine ⟨{ s with reservedUntilUs := 0 }, ?_, hs.known, ht⟩
  rw [Database.putState, hs.id, get_insert_self]

theorem held_putState (h : db.Held t c) (hs : s.Of id)
    (ht : id = c → t ≤ s.cooldownUntilUs) : (db.putState s).Held t c := by
  by_cases hc : id = c
  · exact held_putState_self db (hc ▸ hs) (ht hc)
  · obtain ⟨r, hr, hknown, hle⟩ := h
    refine ⟨r, ?_, hknown, hle⟩
    rw [Database.putState, hs.id, get_insert_of_ne _ _ (Ne.symm hc)]
    exact hr

/-- A row that reaches the reset keeps the credential held, and so does a row of another one. -/
theorem Held.record (h : p.Held t c) (hs : s.Of id)
    (ht : id = c → t ≤ s.cooldownUntilUs) : (p.record disk id s).2.Held t c := by
  refine ⟨?_, fun hconf => ?_, ?_⟩
  · cases disk <;> exact h.healthy
  · rw [stateOf_record]
    split_ifs with hc
    · exact ht hc.symm
    · refine h.memory ?_
      cases disk <;> exact hconf
  · rcases db_record p disk id s with hdb | hdb
    · rw [hdb]
      exact h.disk
    · rw [hdb]
      exact held_putState h.disk hs ht

end

/-! ## Calls -/

variable {p} {q : CredentialPool} {now : UInt64} {disk : Except String Unit}

section

variable (h : Selected p now disk q)
include h

theorem Selected.stateOf (k : String) : ∃ reserved last,
    q.stateOf k = { p.stateOf k with reservedUntilUs := reserved, lastUsedUs := last } := by
  cases h with
  | same | drawn => exact ⟨_, _, rfl⟩
  | reserved =>
    rw [stateOf_setState]
    split_ifs with hk
    · subst hk
      exact ⟨_, _, rfl⟩
    · exact ⟨_, _, rfl⟩
  | moved => cases disk <;> exact ⟨_, _, rfl⟩

theorem Selected.frame : q.db.states = p.db.states ∧ q.corruptState = p.corruptState := by
  cases h with
  | same | reserved | drawn => exact ⟨rfl, rfl⟩
  | moved => cases disk <;> exact ⟨rfl, rfl⟩

theorem Selected.keyed (hp : p.Keyed) : q.Keyed := by
  refine ⟨fun k => ?_, ?_⟩
  · obtain ⟨reserved, last, hk⟩ := h.stateOf k
    rw [hk]
    exact ⟨(hp.memory k).id, (hp.memory k).known⟩
  · rw [Database.Keyed, h.frame.1]
    exact hp.disk

theorem Selected.held {t : UInt64} {c : String} (hp : p.Held t c) : q.Held t c := by
  refine ⟨h.frame.2 ▸ hp.healthy, fun hconf => ?_, ?_⟩
  · obtain ⟨reserved, last, hc⟩ := h.stateOf c
    rw [hc]
    refine hp.memory ?_
    rwa [configured, ← h.credentials]
  · rw [Database.Held, h.frame.1]
    exact hp.disk

end

theorem configured_setSecret (id secret k : String) (cs : List Credential) :
    (setSecret id secret cs).any (·.id == k) = cs.any (·.id == k) := by
  induction cs with
  | nil => rfl
  | cons c cs ih =>
    rw [setSecret]
    split_ifs
    · rfl
    · rw [any_cons, any_cons, ih]

theorem Held.withSecret {t : UInt64} {c : String} (h : p.Held t c) (id secret : String) :
    (p.withSecret id secret).Held t c := by
  refine ⟨h.healthy, fun hconf => h.memory ?_, h.disk⟩
  rwa [configured, CredentialPool.withSecret, configured_setSecret] at hconf

theorem of_rateLimited (h : p.Keyed) (id : String) (now : UInt64) (r : Option UInt64) :
    (p.rateLimited id now r).Of id := ⟨(h.memory id).id, (h.memory id).known⟩

theorem of_refreshedState (h : p.Keyed) (id : String) : (p.refreshedState id).Of id :=
  ⟨(h.memory id).id, (h.memory id).known⟩

theorem of_used (h : p.Keyed) (id : String) (now : UInt64) : (p.used id now).Of id :=
  ⟨(h.memory id).id, (h.memory id).known⟩

theorem stateOf_withRepaired (p : CredentialPool) (id k : String) :
    (p.withRepaired id).stateOf k = if k = id then .new id else p.stateOf k :=
  stateOf_setState p id k (.new id)

variable {i : Input}

theorem keyed_of_applied (h : Applied p i q) (hp : p.Keyed) : q.Keyed := by
  cases h with
  | refused => exact hp
  | acquired events hselected =>
    have hkeyed := hselected.keyed hp
    exact ⟨hkeyed.memory, hkeyed.disk⟩
  | rateLimited => exact hp.record (of_rateLimited hp ..)
  | repeated => exact ⟨hp.memory, hp.disk⟩
  | @refreshed id secret errorId _ _ _ =>
    have hnoted : ((p.noteError errorId).withSecret id secret).Keyed := ⟨hp.memory, hp.disk⟩
    exact hnoted.record (of_refreshedState hp id)
  | @refreshFailed id _ errorId _ _ _ _ =>
    have hnoted : (p.noteError errorId).Keyed := ⟨hp.memory, hp.disk⟩
    exact hnoted.record (of_rateLimited hp id ..)
  | used => exact hp.record (of_used hp ..)
  | @repaired id _ _ =>
    refine ⟨fun k => ?_, keyed_putState hp.disk (.new id)⟩
    rw [stateOf_withRepaired]
    split_ifs with hk
    · exact hk ▸ CredentialState.of_new id
    · exact hp.memory k

/-! ## Covering a reset -/

/-- A report before the reset reaches it: it advertises no earlier one, or the default cooldown
does. -/
def Reaches (p : CredentialPool) (t now : UInt64) (resetAtUs : Option UInt64) : Prop :=
  match resetAtUs with
  | some u => t ≤ u ∨ (u ≤ now ∧ t ≤ saturatingAdd now p.defaultCooldownUs)
  | none => t ≤ saturatingAdd now p.defaultCooldownUs

/-- A report about the credential that comes before the reset reaches it. A refresh that fails is a
report without an advertised reset. -/
def Covers (p : CredentialPool) (t : UInt64) (c : String) (i : Input) : Prop :=
  match i.call with
  | .markRateLimited id resetAtUs => id = c → i.now < t → p.Reaches t i.now resetAtUs
  | .markAuthFailure id errorId (.error _) =>
    id = c → p.lastRefreshErrorId ≠ some errorId → i.now < t → p.Reaches t i.now none
  | _ => True

def Refreshes (p : CredentialPool) (c : String) (i : Input) : Prop :=
  match i.call with
  | .markAuthFailure id errorId (.ok _) => id = c ∧ p.lastRefreshErrorId ≠ some errorId
  | _ => False

theorem le_saturatingAdd (a b : UInt64) : a ≤ saturatingAdd a b := by
  rw [saturatingAdd, UInt64.le_iff_toNat_le]
  split_ifs with h
  · rw [UInt64.toNat_add, Nat.mod_eq_of_lt h]
    exact Nat.le_add_right ..
  · have ha := a.toNat_lt
    rw [UInt64.toNat_ofNat']
    omega

theorem le_cooldownTarget {t now : UInt64} {r : Option UInt64} (h : now < t → p.Reaches t now r) :
    t ≤ p.cooldownTarget now r := by
  by_cases hnow : now < t
  · have hreach := h hnow
    cases r with
    | none => exact hreach
    | some =>
      rw [cooldownTarget]
      rcases hreach with htu | ⟨hu, hdefault⟩
      · rw [if_pos (UInt64.lt_of_lt_of_le hnow htu)]
        exact htu
      · rw [if_neg (UInt64.not_lt.mpr hu)]
        exact hdefault
  · -- after the reset every cooldown reaches it
    have hle := UInt64.le_trans (UInt64.not_lt.mp hnow) (le_saturatingAdd now p.defaultCooldownUs)
    cases r with
    | none => exact hle
    | some =>
      rw [cooldownTarget]
      split_ifs with hu
      · exact UInt64.le_trans (UInt64.not_lt.mp hnow) (UInt64.le_of_lt hu)
      · exact hle

/-- **A call that covers the reset and does not refresh the credential keeps it held.** -/
theorem held_of_applied {t : UInt64} {c : String} (h : Applied p i q) (hk : p.Keyed)
    (hp : p.Held t c) (hrefresh : ¬ p.Refreshes c i) (hcovers : p.Covers t c i) : q.Held t c := by
  cases h with
  | refused => exact hp
  | acquired events hselected =>
    have hheld := hselected.held hp
    exact ⟨hheld.healthy, hheld.memory, hheld.disk⟩
  | rateLimited hcall =>
    refine hp.record (of_rateLimited hk ..) fun hc => le_cooldownTarget ?_
    rw [Covers, hcall] at hcovers
    exact hcovers hc
  | repeated => exact ⟨hp.healthy, hp.memory, hp.disk⟩
  | @refreshed id secret errorId hcall hfresh _ =>
    have hnoted : (p.noteError errorId).Held t c := ⟨hp.healthy, hp.memory, hp.disk⟩
    refine (hnoted.withSecret id secret).record (of_refreshedState hk id) fun hc => ?_
    rw [Refreshes, hcall] at hrefresh
    exact absurd ⟨hc, hfresh⟩ hrefresh
  | @refreshFailed id _ errorId hcall hfresh _ _ =>
    have hnoted : (p.noteError errorId).Held t c := ⟨hp.healthy, hp.memory, hp.disk⟩
    refine hnoted.record (of_rateLimited hk id ..) fun hc => le_cooldownTarget ?_
    rw [Covers, hcall] at hcovers
    exact hcovers hc hfresh
  | used _ hconf =>
    refine hp.record (of_used hk ..) fun hc => ?_
    exact hc ▸ hp.memory (hc ▸ hconf)
  | @repaired id _ hcorrupt =>
    -- the held credential is not in quarantine, so another one is repaired
    have hne : id ≠ c := fun hc => hp.healthy (hc ▸ hcorrupt)
    refine ⟨fun hmem => hp.healthy (mem_filter.mp hmem).1, fun hconf => ?_,
      held_putState hp.disk (CredentialState.of_new id) (absurd · hne)⟩
    rw [stateOf_withRepaired, if_neg (Ne.symm hne)]
    exact hp.memory hconf

end CredentialPool

/-! ## Reopening -/

section

variable {db : Database} {opts : PoolOptions} {now : UInt64} {p : CredentialPool}

theorem mem_configuredRows {row : String × StoredRow} :
    row ∈ configuredRows db opts ↔
      db.states.get row.1 = some row.2 ∧ opts.credentials.any (·.id == row.1) = true := by
  rw [configuredRows, mem_filter, ← mem_entries]

variable {s : CredentialState} {k : String}

theorem get_loadedStates (h : (loadedStates db opts).get k = some s) :
    ∃ row, db.states.get k = some row ∧ row.state? = some s := by
  rw [loadedStates] at h
  rcases get_writeAll Prod.fst Prod.snd empty _ k with ⟨b, hb, hk, hget⟩ | ⟨-, hget⟩
  · obtain ⟨row, hrow, hb⟩ := mem_filterMap.mp hb
    obtain ⟨r, hr, rfl⟩ := Option.map_eq_some_iff.mp hb
    rw [h] at hget
    cases hget
    subst hk
    exact ⟨row.2, (mem_configuredRows.mp hrow).1, hr⟩
  · rw [h] at hget
    cases hget

variable {row : StoredRow}

theorem loadedStates_of_get (hrow : db.states.get k = some row)
    (hs : row.state? = some s) (hconf : opts.credentials.any (·.id == k) = true) :
    (loadedStates db opts).get k = some s := by
  have hmem : (k, s) ∈ (configuredRows db opts).filterMap fun row =>
      row.2.state?.map fun s => (row.1, s) :=
    mem_filterMap.mpr ⟨(k, row), mem_configuredRows.mpr ⟨hrow, hconf⟩, by rw [hs]; rfl⟩
  cases hget : (loadedStates db opts).get k with
  | none =>
    rw [loadedStates] at hget
    rcases get_writeAll Prod.fst Prod.snd empty _ k with ⟨b, -, -, hb⟩ | ⟨hb, -⟩
    · rw [hget] at hb
      cases hb
    · exact absurd rfl (hb (k, s) hmem)
  | some =>
    obtain ⟨row', hrow', hr⟩ := get_loadedStates hget
    rw [hrow] at hrow'
    cases hrow'
    rw [← hs, hr]

theorem states_putState (states : List CredentialState) (db : Database) :
    (states.foldl Database.putState db).states =
      db.states.writeAll CredentialState.id (fun s => .parsed { s with reservedUntilUs := 0 })
        states := by
  induction states generalizing db with
  | nil => rfl
  | cons s states ih => exact ih (db.putState s)

theorem StoredRow.state?_eq_some (h : row.state? = some s) :
    row = .parsed s ∧ s.schemaVersion ≤ credentialPoolSchemaVersion := by
  cases row with
  | malformed => cases h
  | parsed =>
    rw [StoredRow.state?] at h
    split_ifs at h with hknown
    obtain rfl := Option.some.inj h
    exact ⟨rfl, hknown⟩

theorem keyed_openPool (h : openPool db opts now = .ok p) (hdb : db.Keyed) : p.Keyed := by
  rw [openPool] at h
  split_ifs at h
  obtain rfl := Except.ok.inj h
  refine ⟨fun k => ?_, ?_⟩
  · rw [stateOf]
    rcases get_writeAll CredentialState.id id (loadedStates db opts) (missingStates db opts) k
      with ⟨s, hs, hk, hget⟩ | ⟨-, hget⟩
    · obtain ⟨c, -, rfl⟩ := mem_map.mp hs
      rw [hget, ← hk]
      exact CredentialState.of_new c.id
    · rw [hget]
      cases hload : (loadedStates db opts).get k with
      | none => exact CredentialState.of_new k
      | some s =>
        obtain ⟨row, hrow, hs⟩ := get_loadedStates hload
        obtain ⟨rfl, hknown⟩ := StoredRow.state?_eq_some hs
        exact ⟨hdb k s hrow, hknown⟩
  · exact foldlRecOn _ _ hdb fun db h s _ => keyed_putState h s

/-- **Reopening keeps a credential held.** -/
theorem held_openPool {t : UInt64} {c : String} (h : openPool db opts now = .ok p)
    (hdb : db.Held t c) : p.Held t c := by
  obtain ⟨s, hrow, hknown, hle⟩ := hdb
  have hstate : (StoredRow.parsed s).state? = some s := if_pos hknown
  -- a configured credential with a readable row is not missing
  have hmissing : ∀ r ∈ missingStates db opts, r.id ≠ c := by
    rintro r hr rfl
    obtain ⟨d, hd, rfl⟩ := mem_map.mp hr
    obtain ⟨hmem, hnone⟩ := mem_filter.mp hd
    have hconf : opts.credentials.any (·.id == d.id) = true :=
      any_eq_true.mpr ⟨d, hmem, beq_self_eq_true _⟩
    have hload : (loadedStates db opts).get d.id = some s := loadedStates_of_get hrow hstate hconf
    rw [hload] at hnone
    cases hnone
  rw [openPool] at h
  split_ifs at h
  obtain rfl := Except.ok.inj h
  refine ⟨fun hcorrupt => ?_, fun hconf => ?_, ?_⟩
  · obtain ⟨row, hmem, rfl⟩ := mem_map.mp hcorrupt
    obtain ⟨hconfigured, hnone⟩ := mem_filter.mp hmem
    have hget := (mem_configuredRows.mp hconfigured).1
    rw [hrow] at hget
    rw [← Option.some.inj hget, hstate] at hnone
    cases hnone
  · rw [stateOf]
    rcases get_writeAll CredentialState.id id (loadedStates db opts) (missingStates db opts) c
      with ⟨r, hr, hc, -⟩ | ⟨-, hget⟩
    · exact absurd hc (hmissing r hr)
    · rw [hget, loadedStates_of_get hrow hstate hconf]
      exact hle
  · refine ⟨s, ?_, hknown, hle⟩
    rw [states_putState]
    rcases get_writeAll CredentialState.id
      (fun s => StoredRow.parsed { s with reservedUntilUs := 0 }) db.states
      (missingStates db opts) c
      with ⟨r, hr, hc, -⟩ | ⟨-, hget⟩
    · exact absurd hc (hmissing r hr)
    · rw [hget]
      exact hrow

end

/-! ## Every history -/

namespace Machine

/-- The rows are those of their credentials. -/
def Keyed : Machine → Prop
  | closed db => db.Keyed
  | opened pool => pool.Keyed

/-- The credential is cooled down until a time, whether the file is open or closed. -/
def Held (t : UInt64) (c : String) : Machine → Prop
  | closed db => db.Held t c
  | opened pool => pool.Held t c

/-- The call refreshes the credential. -/
def Refreshes (c : String) : Machine → Input → Prop
  | closed _, _ => False
  | opened pool, i => pool.Refreshes c i

/-- A report about the credential that comes before the reset reaches it. -/
def Covers (t : UInt64) (c : String) : Machine → Input → Prop
  | closed _, _ => True
  | opened pool, i => pool.Covers t c i

variable (m : Machine)

theorem keyed_step (i : Input) (h : m.Keyed) : (m.step i).Keyed := by
  have hdb : m.db.Keyed := by
    cases m with
    | closed => exact h
    | opened => exact h.disk
  rw [step]
  split
  · rw [reopen]
    split
    · next p hp => exact keyed_openPool hp hdb
    · exact hdb
  · cases m with
    | closed => exact h
    | opened pool => exact keyed_of_applied (pool.applied_apply i) h

theorem held_step {t : UInt64} {c : String} (i : Input) (hk : m.Keyed)
    (h : m.Held t c) (hrefresh : ¬ m.Refreshes c i) (hcovers : m.Covers t c i) :
    (m.step i).Held t c := by
  have hdb : m.db.Held t c := by
    cases m with
    | closed => exact h
    | opened => exact h.disk
  rw [step]
  split
  · rw [reopen]
    split
    · next p hp => exact held_openPool hp hdb
    · exact hdb
  · cases m with
    | closed => exact h
    | opened pool => exact held_of_applied (pool.applied_apply i) hk h hrefresh hcovers

end Machine

theorem CredentialPool.held_of_accepted {p : CredentialPool} (hk : p.Keyed) {c : String}
    {t now : UInt64} {disk : Except String Unit} (hfuture : now < t)
    (haccepted : (p.markRateLimited c (some t) now disk).1 = .ok ()) :
    (p.markRateLimited c (some t) now disk).2.Held t c := by
  rw [markRateLimited] at haccepted ⊢
  split_ifs at haccepted ⊢ with hconf hcorrupt
  have hcooldown : (p.rateLimited c now (some t)).cooldownUntilUs = t := if_pos hfuture
  cases disk with
  | error => cases haccepted
  | ok =>
    have hle : t ≤ (p.rateLimited c now (some t)).cooldownUntilUs := by
      rw [hcooldown]
      exact UInt64.le_refl t
    have hhealthy : c ∉ p.corruptState := by simpa using hcorrupt
    refine ⟨hhealthy, fun _ => ?_, held_putState_self p.db (of_rateLimited hk c now (some t)) hle⟩
    rw [stateOf_record, if_pos rfl]
    exact hle

/-- **A credential is not handed out before an advertised reset, in every history in which no
refresh of it succeeds and every later report about it reaches the reset.** -/
theorem reset_respected (db : Database) (hdb : db.Bounded) (hkeyed : db.Keyed)
    (before after : List Input) (pool : CredentialPool)
    (hpool : runSteps step (.closed db) before = .opened pool)
    (c : String) (t now : UInt64) (disk : Except String Unit)
    (haccepted : (pool.markRateLimited c (some t) now disk).1 = .ok ()) (hfuture : now < t)
    (hrefresh : Guarded step (fun m i => ¬ m.Refreshes c i)
      (.opened (pool.markRateLimited c (some t) now disk).2) after)
    (hcovers : Guarded step (fun m i => m.Covers t c i)
      (.opened (pool.markRateLimited c (some t) now disk).2) after) (later : CredentialPool)
    (hlater : runSteps step (.closed db)
      (before ++ ⟨.markRateLimited c (some t), now, disk⟩ :: after) = .opened later)
    (reason : String) (at' : UInt64) (hat : at' < t) (disk' : Except String Unit) (d : Credential)
    (hok : (later.acquire reason at' disk').1 = .ok d) : d.id ≠ c := by
  have hbounded := bounded_run (m := .closed db) hdb
    (before ++ ⟨.markRateLimited c (some t), now, disk⟩ :: after)
  have hpoolKeyed := runSteps_invariant (s := closed db) keyed_step hkeyed before
  rw [hlater] at hbounded
  rw [hpool] at hpoolKeyed
  rw [runSteps_append, hpool, runSteps_cons] at hlater
  -- held and keyed together are what every later call keeps
  have hinv : (opened later).Keyed ∧ (opened later).Held t c := by
    rw [← hlater]
    refine (hrefresh.and hcovers).invariant
      (P := fun m => m.Keyed ∧ m.Held t c) (fun m i hm hguard => ?_) ⟨?_, ?_⟩
    · exact ⟨keyed_step m i hm.1, held_step m i hm.1 hm.2 hguard.1 hguard.2⟩
    · exact keyed_step (.opened pool) ⟨.markRateLimited c (some t), now, disk⟩ hpoolKeyed
    · exact CredentialPool.held_of_accepted hpoolKeyed hfuture haccepted
  obtain ⟨hmem, ⟨-, hcool⟩, -⟩ := CredentialPool.acquire_ok hbounded.1 hok
  rintro rfl
  have hconf : later.configured d.id = true := any_eq_true.mpr ⟨d, hmem, beq_self_eq_true _⟩
  exact hcool (UInt64.lt_of_lt_of_le hat (hinv.2.memory hconf))

def twoKeys : PoolOptions where
  name := "main"
  credentials := [⟨"key-a", "secret-a"⟩, ⟨"key-b", "secret-b"⟩]
  strategy := .roundRobin
  defaultCooldownUs := defaultCooldown
  ids_nodup := by decide
  length_lt := by decide

/-- Another use, another report and a restart. -/
def afterReset : List Input :=
  [⟨.markSuccess "key-a", 3000000, .ok ()⟩,
    ⟨.markRateLimited "key-a" (some 4000000000), 3000000, .ok ()⟩,
    ⟨.reopen twoKeys, 5000000, .ok ()⟩]

theorem reset_respected_twoKeys : ∃ pool later,
    runSteps step (.closed .create) [⟨.reopen twoKeys, 1000000, .ok ()⟩] = .opened pool ∧
    runSteps step (.closed .create)
      ([⟨.reopen twoKeys, 1000000, .ok ()⟩] ++
        ⟨.markRateLimited "key-a" (some 3602000000), 2000000, .ok ()⟩ :: afterReset) =
      .opened later ∧
    (later.acquire "initial_acquire" 64000000 (.ok ())).1 = .ok ⟨"key-b", "secret-b"⟩ ∧
    (⟨"key-b", "secret-b"⟩ : Credential).id ≠ "key-a" :=
  ⟨_, _, rfl, rfl, rfl,
    reset_respected .create bounded_create nofun
      [⟨.reopen twoKeys, 1000000, .ok ()⟩] afterReset _ rfl "key-a" 3602000000 2000000 (.ok ()) rfl
      (by decide) ⟨id, id, id, trivial⟩ ⟨trivial, fun _ _ => .inl (by decide), trivial, trivial⟩
      _ rfl "initial_acquire" 64000000 (by decide) (.ok ()) _ rfl⟩

/-- A refresh that fails ends a cooldown of an hour after a minute. -/
theorem failed_refresh_ends_cooldown : ∃ pool later,
    runSteps step (.closed .create) [⟨.reopen (oneKey .roundRobin), 1000000, .ok ()⟩] =
      .opened pool ∧
    (pool.markRateLimited "key-a" (some 3602000000) 2000000 (.ok ())).1 = .ok () ∧
    runSteps step (.opened (pool.markRateLimited "key-a" (some 3602000000) 2000000 (.ok ())).2)
      [⟨.markAuthFailure "key-a" 7 (.error "OAuth refresh not configured"), 3000000, .ok ()⟩] =
      .opened later ∧
    (later.acquire "initial_acquire" 64000000 (.ok ())).1 = .ok ⟨"key-a", "secret-a"⟩ :=
  ⟨_, _, rfl, rfl, rfl, rfl⟩

end Octos.Credentials
