import Octos.Base.Checked
import Octos.Base.Runs
import Octos.Base.Table
import Mathlib.Data.String.Basic

/-!
# The credential pool

`octos-llm/src/credential_pool.rs`: a pool hands out one of several credentials by a rotation
strategy. A credential that was rate limited is cooled down until a point in time, one whose row
could not be read is quarantined until it is repaired, and one that `FillFirst` has just handed out
is reserved for a few seconds. Cooldowns and counters are rows of a database and outlive the pool;
reservations do not.

A database row is modelled by what `serde_json` reads from it. What a call meets and does not find
in the pool is in its `Input`: the clock, the outcome of the database transaction, the outcome of a
refresh.
-/

namespace Octos.Credentials

/-! ## Credentials and their states -/

/-- A credential: the pool never looks into the secret. -/
structure Credential where
  id : String
  secret : String

def credentialPoolSchemaVersion : UInt32 := 1

/-- The times are microseconds since the epoch. -/
structure CredentialState where
  schemaVersion : UInt32
  id : String
  cooldownUntilUs : UInt64
  rateLimitCount : UInt64
  resetAtUs : UInt64
  lastUsedUs : UInt64
  usageCount : UInt64
  /-- Not written to the database. -/
  reservedUntilUs : UInt64

namespace CredentialState

def new (id : String) : CredentialState := ⟨credentialPoolSchemaVersion, id, 0, 0, 0, 0, 0, 0⟩

def isCooledDown (s : CredentialState) (now : UInt64) : Bool := now < s.cooldownUntilUs

def isReserved (s : CredentialState) (now : UInt64) : Bool := now < s.reservedUntilUs

end CredentialState

def fillFirstReservationUs : UInt64 := 5 * 1000000

def defaultCooldown : UInt64 := 60 * 1000000

inductive RotationStrategy
  | fillFirst
  | roundRobin
  | random
  | leastUsed
  deriving DecidableEq

def RotationStrategy.asMetricLabel : RotationStrategy → String
  | .fillFirst => "fill_first"
  | .roundRobin => "round_robin"
  | .random => "random"
  | .leastUsed => "least_used"

structure CredentialRotationEvent where
  schema : String
  kind : String
  credentialId : String
  reason : String
  strategy : String

def CredentialRotationEvent.new (credentialId reason : String) (strategy : RotationStrategy) :
    CredentialRotationEvent :=
  ⟨"octos.harness.event.v1", "credential_rotation", credentialId, reason, strategy.asMetricLabel⟩

/-! ## The database -/

/-- A row of the state table, as `serde_json` reads it. -/
inductive StoredRow
  | parsed (state : CredentialState)
  | malformed

/-- The tables of the database: states by credential id, round-robin cursors by pool name. -/
structure Database where
  states : Table String StoredRow
  cursors : Table String UInt64

section

variable (db : Database)

/-- A write of a state: it goes to the row of the id in the state, without the reservation. -/
def Database.putState (s : CredentialState) : Database :=
  { db with states := db.states.insert s.id (.parsed { s with reservedUntilUs := 0 }) }

/-- What a pool is opened with. The ids are distinct; a vector has fewer than `2 ^ 63` entries. -/
structure PoolOptions where
  name : String
  credentials : List Credential
  strategy : RotationStrategy
  defaultCooldownUs : UInt64
  ids_nodup : (credentials.map Credential.id).Nodup
  length_lt : credentials.length < 2 ^ 63

/-! ## The pool -/

/-- `PersistentCredentialPool`, with what is behind its lock and the events it has sent. -/
structure CredentialPool where
  name : String
  strategy : RotationStrategy
  defaultCooldownUs : UInt64
  db : Database
  credentials : List Credential
  /-- The rows in memory. -/
  state : Table String CredentialState
  /-- The ids of the rows that could not be read. -/
  corruptState : List String
  /-- The id of the last error that triggered a refresh. -/
  lastRefreshErrorId : Option UInt64
  rngState : UInt64
  cursor : UInt64
  events : List CredentialRotationEvent

/-- A row can be used: it is readable and of a known schema. -/
def StoredRow.state? : StoredRow → Option CredentialState
  | .parsed s => if s.schemaVersion ≤ credentialPoolSchemaVersion then some s else none
  | .malformed => none

section

variable (opts : PoolOptions)

def configuredRows : List (String × StoredRow) :=
  db.states.entries.filter fun row => opts.credentials.any (·.id == row.1)

def loadedStates : Table String CredentialState :=
  Table.empty.writeAll Prod.fst Prod.snd
    ((configuredRows db opts).filterMap fun row => row.2.state?.map fun s => (row.1, s))

def corruptRows : List String :=
  ((configuredRows db opts).filter fun row => row.2.state?.isNone).map Prod.fst

def missingStates : List CredentialState :=
  (opts.credentials.filter fun c =>
    ((loadedStates db opts).get c.id).isNone && !(corruptRows db opts).contains c.id).map
      fun c => CredentialState.new c.id

/-- The seed of the generator, from the name of the pool and the clock. -/
def rngSeed (name : String) (now : UInt64) : UInt64 :=
  let h := name.toUTF8.data.toList.foldl (fun h byte => (h ^^^ byte.toUInt64) * 0x100000001b3)
    (0xcbf29ce484222325 : UInt64)
  (h ^^^ now) ||| 1

/-- `PersistentCredentialPool::open`: load the rows, quarantine what cannot be read, and write a
fresh row for every credential without one. -/
def openPool (now : UInt64) : Except String CredentialPool :=
  if opts.credentials.isEmpty then
    .error ("credential pool `" ++ opts.name ++ "` requires at least one credential")
  else
    let missing := missingStates db opts
    .ok
      { name := opts.name
        strategy := opts.strategy
        defaultCooldownUs := opts.defaultCooldownUs
        db := missing.foldl Database.putState db
        credentials := opts.credentials
        state := (loadedStates db opts).writeAll CredentialState.id id missing
        corruptState := corruptRows db opts
        lastRefreshErrorId := none
        rngState := rngSeed opts.name now
        cursor := (db.cursors.get opts.name).getD 0
        events := [] }

end

end

namespace CredentialPool

variable (p : CredentialPool) (id : String)

def configured : Bool := p.credentials.any (·.id == id)

def stateOf : CredentialState := (p.state.get id).getD (.new id)

def stateForSelection : Option CredentialState :=
  if p.corruptState.contains id then none else some (p.stateOf id)

/-- `ensure_state_healthy`, and the same text when nothing can be acquired. -/
def corruptError (id operation : String) : String :=
  "credential `" ++ id ++ "` state is corrupt or has unsupported schema (operation=" ++ operation ++
    "); explicit repair required"

def setState (s : CredentialState) : CredentialPool :=
  { p with state := p.state.insert id s }

/-- The transaction commits, or the database stays as it is. -/
def persistState (disk : Except String Unit) (s : CredentialState) :
    Except String Unit × CredentialPool :=
  match disk with
  | .ok _ => (.ok (), { p with db := p.db.putState s })
  | .error e => (.error e, p)

/-- An entry is updated in memory and its copy is persisted. -/
def record (disk : Except String Unit) (id : String) (s : CredentialState) :
    Except String Unit × CredentialPool :=
  (p.setState id s).persistState disk s

/-- Its outcome is ignored. -/
def persistCursor (disk : Except String Unit) (cursor : UInt64) : CredentialPool :=
  match disk with
  | .ok _ => { p with db := { p.db with cursors := p.db.cursors.insert p.name cursor } }
  | .error _ => p

/-! ## Selection -/

variable (now : UInt64)

/-- The credential may be selected by the strategies that do not reserve. -/
def offers (c : Credential) : Bool :=
  match p.stateForSelection c.id with
  | none => false
  | some s => !s.isCooledDown now

/-- The credential may be selected by `FillFirst`. -/
def offersFirst (c : Credential) : Bool :=
  match p.stateForSelection c.id with
  | none => false
  | some s => !(s.isCooledDown now || s.isReserved now)

/-- The lowest-index credential on offer; it is reserved. -/
def selectFillFirst : Option String × CredentialPool :=
  match p.credentials.find? (p.offersFirst now) with
  | none => (none, p)
  | some c =>
    (some c.id, p.setState c.id
      { p.stateOf c.id with
        reservedUntilUs := saturatingAdd now fillFirstReservationUs
        lastUsedUs := now })

/-- The index that the round-robin loop looks at. -/
def slot (step : ℕ) : ℕ :=
  ((p.cursor + UInt64.ofNat step) % UInt64.ofNat p.credentials.length).toNat

section

variable (disk : Except String Unit)

/-- The first credential on offer, from the cursor on; the cursor moves behind it. -/
def selectRoundRobin : Option String × CredentialPool :=
  match (List.range p.credentials.length).find? fun step =>
      (p.credentials[p.slot step]?).any (p.offers now) with
  | none => (none, p)
  | some step =>
    let next := (p.cursor + UInt64.ofNat step + 1) % UInt64.ofNat p.credentials.length
    ((p.credentials[p.slot step]?).map Credential.id,
      { p with cursor := next }.persistCursor disk next)

/-- One of the credentials on offer, picked by a linear congruential generator. -/
def selectRandom : Option String × CredentialPool :=
  let available := p.credentials.filter (p.offers now)
  if available.isEmpty then (none, p)
  else
    let next := p.rngState * 6364136223846793005 + 1442695040888963407
    ((available[next.toNat % available.length]?).map Credential.id, { p with rngState := next })

/-- The better of two candidates: used less often, or as often and not as lately. -/
def lessUsed (best : Option Credential) (c : Credential) : Option Credential :=
  match best with
  | none => some c
  | some b =>
    let bs := p.stateOf b.id
    let cs := p.stateOf c.id
    if cs.usageCount < bs.usageCount ∨
      (cs.usageCount = bs.usageCount ∧ cs.lastUsedUs < bs.lastUsedUs)
    then some c
    else some b

def selectLeastUsed : Option String × CredentialPool :=
  (((p.credentials.filter (p.offers now)).foldl p.lessUsed none).map Credential.id, p)

def select : Option String × CredentialPool :=
  match p.strategy with
  | .fillFirst => p.selectFillFirst now
  | .roundRobin => p.selectRoundRobin now disk
  | .random => p.selectRandom now
  | .leastUsed => p.selectLeastUsed now

def emitRotation (credentialId reason : String) : CredentialPool :=
  { p with events := p.events ++ [.new credentialId reason p.strategy] }

def exhausted : String :=
  match p.corruptState.min? with
  | some id => corruptError id "acquire"
  | none => "all credentials in pool `" ++ p.name ++ "` are cooled down"

def acquire (reason : String) (now : UInt64) (disk : Except String Unit) :
    Except String Credential × CredentialPool :=
  match p.select now disk with
  | (none, q) => (.error q.exhausted, q)
  | (some id, q) =>
    match q.credentials.find? (·.id == id) with
    | none => (.error ("selected credential `" ++ id ++ "` not found"), q)
    | some c => (.ok c, q.emitRotation c.id reason)

/-! ## Reports -/

/-- The error of a call for a credential that is not in the pool. -/
def unknownError : String := "credential `" ++ id ++ "` not in pool `" ++ p.name ++ "`"

/-- Until when a rate-limited credential is cooled down. -/
def cooldownTarget (resetAtUs : Option UInt64) : UInt64 :=
  match resetAtUs with
  | some target => if now < target then target else saturatingAdd now p.defaultCooldownUs
  | none => saturatingAdd now p.defaultCooldownUs

def rateLimited (resetAtUs : Option UInt64) : CredentialState :=
  let s := p.stateOf id
  { s with
    rateLimitCount := saturatingAdd s.rateLimitCount 1
    resetAtUs := resetAtUs.getD 0
    cooldownUntilUs := p.cooldownTarget now resetAtUs }

def markRateLimited (resetAtUs : Option UInt64) (now : UInt64) (disk : Except String Unit) :
    Except String Unit × CredentialPool :=
  if !p.configured id then (.error (p.unknownError id), p)
  else if p.corruptState.contains id then (.error (corruptError id "mark_rate_limited"), p)
  else p.record disk id (p.rateLimited id now resetAtUs)

/-- The error is the last one that triggered a refresh. -/
def noteError (errorId : UInt64) : CredentialPool := { p with lastRefreshErrorId := some errorId }

/-- The first critical section of `mark_auth_failure`: whether a refresh is to follow. -/
def enterAuthFailure (errorId : UInt64) : Except String Bool × CredentialPool :=
  if p.corruptState.contains id then (.error (corruptError id "mark_auth_failure"), p)
  else (.ok (p.lastRefreshErrorId != some errorId), p.noteError errorId)

/-- The first credential with the id gets the new secret. -/
def setSecret (id secret : String) : List Credential → List Credential
  | [] => []
  | c :: cs => if c.id = id then { c with secret := secret } :: cs else c :: setSecret id secret cs

def withSecret (id secret : String) : CredentialPool :=
  { p with credentials := setSecret id secret p.credentials }

def refreshedState : CredentialState :=
  { p.stateOf id with cooldownUntilUs := 0, resetAtUs := 0 }

/-- What `mark_auth_failure` does when the refresh is over: the cooldown ends, or a new one
begins. -/
def finishRefresh (refreshed : Except String String) (now : UInt64) (disk : Except String Unit) :
    Except String Unit × CredentialPool :=
  match refreshed with
  | .ok secret => (p.withSecret id secret).record disk id (p.refreshedState id)
  | .error _ => p.markRateLimited id none now disk

/-- `mark_auth_failure`, run without interruption. -/
def markAuthFailure (errorId : UInt64) (refreshed : Except String String) (now : UInt64)
    (disk : Except String Unit) : Except String Unit × CredentialPool :=
  match p.enterAuthFailure id errorId with
  | (.error e, q) => (.error e, q)
  | (.ok false, q) => (.ok (), q)
  | (.ok true, q) => q.finishRefresh id refreshed now disk

def used : CredentialState :=
  let s := p.stateOf id
  { s with
    usageCount := saturatingAdd s.usageCount 1
    lastUsedUs := now
    reservedUntilUs := 0 }

def markSuccess : Except String Unit × CredentialPool :=
  if !p.configured id then (.error (p.unknownError id), p)
  else if p.corruptState.contains id then (.error (corruptError id "mark_success"), p)
  else p.record disk id (p.used id now)

/-- The row is fresh and out of quarantine. -/
def withRepaired : CredentialPool :=
  { p.setState id (.new id) with corruptState := p.corruptState.filter (· != id) }

/-- The row is written before it is taken out of quarantine. -/
def repairCredentialState : Except String Unit × CredentialPool :=
  if !p.configured id then (.error (p.unknownError id ++ " (operation=repair)"), p)
  else if !p.corruptState.contains id then
    (.error ("credential `" ++ id ++
      "` state is not corrupt (operation=repair); refusing to reset healthy state"), p)
  else
    match p.persistState disk (.new id) with
    | (.error e, q) =>
      (.error ("credential `" ++ id ++ "` state repair failed (operation=repair): " ++ e), q)
    | (.ok _, q) => (.ok (), q.withRepaired id)

end

end CredentialPool

/-! ## Histories -/

inductive Call
  | acquire (reason : String)
  | markRateLimited (id : String) (resetAtUs : Option UInt64)
  | markAuthFailure (id : String) (errorId : UInt64) (refreshed : Except String String)
  | markSuccess (id : String)
  | repairCredentialState (id : String)
  | reopen (opts : PoolOptions)

/-- A call, with the clock and the outcome of its database transaction. -/
structure Input where
  call : Call
  now : UInt64
  disk : Except String Unit

def CredentialPool.apply (p : CredentialPool) (i : Input) : CredentialPool :=
  match i.call with
  | .acquire reason => (p.acquire reason i.now i.disk).2
  | .markRateLimited id resetAtUs => (p.markRateLimited id resetAtUs i.now i.disk).2
  | .markAuthFailure id errorId refreshed => (p.markAuthFailure id errorId refreshed i.now i.disk).2
  | .markSuccess id => (p.markSuccess id i.now i.disk).2
  | .repairCredentialState id => (p.repairCredentialState id i.disk).2
  | .reopen _ => p

namespace CredentialPool

variable (p : CredentialPool) (i : Input)

/-- What selecting can do to a pool. -/
inductive Selected (now : UInt64) (disk : Except String Unit) : CredentialPool → Prop
  | same : Selected now disk p
  | reserved (id : String) : Selected now disk (p.setState id
      { p.stateOf id with
        reservedUntilUs := saturatingAdd now fillFirstReservationUs
        lastUsedUs := now })
  | moved {step : ℕ} {next : UInt64} (hstep : step < p.credentials.length)
    (hnext : next = (p.cursor + UInt64.ofNat step + 1) % UInt64.ofNat p.credentials.length) :
    Selected now disk ({ p with cursor := next }.persistCursor disk next)
  | drawn (next : UInt64) : Selected now disk { p with rngState := next }

theorem selected_select (now : UInt64) (disk : Except String Unit) :
    Selected p now disk (p.select now disk).2 := by
  cases hs : p.strategy with simp only [select, hs]
  | fillFirst =>
    simp only [selectFillFirst]
    split
    · exact .same
    · exact .reserved _
  | roundRobin =>
    simp only [selectRoundRobin]
    split
    · exact .same
    · next step hfind =>
      exact .moved (List.mem_range.mp (List.mem_of_find?_eq_some hfind)) rfl
  | random =>
    simp only [selectRandom]
    split_ifs
    · exact .same
    · exact .drawn _
  | leastUsed =>
    exact .same

theorem selected_acquire (reason : String) (now : UInt64) (disk : Except String Unit) :
    ∃ q events, Selected p now disk q ∧
      (p.acquire reason now disk).2 = { q with events := events } := by
  have hselected := p.selected_select now disk
  rw [acquire]
  split
  · next q hq =>
    rw [hq] at hselected
    exact ⟨q, q.events, hselected, rfl⟩
  · next q hq =>
    rw [hq] at hselected
    split
    · exact ⟨q, q.events, hselected, rfl⟩
    · exact ⟨q, _, hselected, rfl⟩

/-- What a call can do to a pool. -/
inductive Applied : CredentialPool → Prop
  | refused : Applied p
  | acquired {q : CredentialPool} (events : List CredentialRotationEvent)
    (hselected : Selected p i.now i.disk q) : Applied { q with events := events }
  | rateLimited {id : String} {resetAtUs : Option UInt64}
    (hcall : i.call = .markRateLimited id resetAtUs) (hconf : p.configured id = true)
    (hhealthy : id ∉ p.corruptState) :
    Applied (p.record i.disk id (p.rateLimited id i.now resetAtUs)).2
  | repeated {id : String} {errorId : UInt64} {refreshed : Except String String}
    (hcall : i.call = .markAuthFailure id errorId refreshed) : Applied (p.noteError errorId)
  | refreshed {id secret : String} {errorId : UInt64}
    (hcall : i.call = .markAuthFailure id errorId (.ok secret))
    (hfresh : p.lastRefreshErrorId ≠ some errorId) (hhealthy : id ∉ p.corruptState) :
    Applied (((p.noteError errorId).withSecret id secret).record i.disk id (p.refreshedState id)).2
  | refreshFailed {id e : String} {errorId : UInt64}
    (hcall : i.call = .markAuthFailure id errorId (.error e))
    (hfresh : p.lastRefreshErrorId ≠ some errorId) (hconf : p.configured id = true)
    (hhealthy : id ∉ p.corruptState) :
    Applied ((p.noteError errorId).record i.disk id (p.rateLimited id i.now none)).2
  | used {id : String} (hcall : i.call = .markSuccess id) (hconf : p.configured id = true)
    (hhealthy : id ∉ p.corruptState) : Applied (p.record i.disk id (p.used id i.now)).2
  | repaired {id : String} (hcall : i.call = .repairCredentialState id)
    (hcorrupt : id ∈ p.corruptState) :
    Applied ({ p with db := p.db.putState (.new id) }.withRepaired id)

variable {id : String}

theorem applied_markRateLimited {resetAtUs : Option UInt64}
    (hcall : i.call = .markRateLimited id resetAtUs) :
    Applied p i (p.markRateLimited id resetAtUs i.now i.disk).2 := by
  rw [markRateLimited]
  split_ifs with hconf hcorrupt
  · exact .refused
  · exact .refused
  · exact .rateLimited hcall (by simpa using hconf) (by simpa using hcorrupt)

theorem applied_markAuthFailure {errorId : UInt64} {refreshed : Except String String}
    (hcall : i.call = .markAuthFailure id errorId refreshed) :
    Applied p i (p.markAuthFailure id errorId refreshed i.now i.disk).2 := by
  by_cases hcorrupt : id ∈ p.corruptState
  · have hrefused : (p.markAuthFailure id errorId refreshed i.now i.disk).2 = p := by
      simp [markAuthFailure, enterAuthFailure, hcorrupt]
    rw [hrefused]
    exact .refused
  · by_cases hlast : p.lastRefreshErrorId = some errorId
    · have hnoted : (p.markAuthFailure id errorId refreshed i.now i.disk).2 =
        p.noteError errorId := by
        simp [markAuthFailure, enterAuthFailure, hcorrupt, hlast]
      rw [hnoted]
      exact .repeated hcall
    · have hfinish : p.markAuthFailure id errorId refreshed i.now i.disk =
          (p.noteError errorId).finishRefresh id refreshed i.now i.disk := by
        have hne : (p.lastRefreshErrorId != some errorId) = true := bne_iff_ne.mpr hlast
        simp [markAuthFailure, enterAuthFailure, hcorrupt, hne]
      rw [hfinish]
      cases refreshed with
      | ok secret => exact .refreshed hcall hlast hcorrupt
      | error e =>
        rw [finishRefresh, markRateLimited]
        split_ifs with hconf hhealthy
        · exact .repeated hcall
        · exact .repeated hcall
        · exact .refreshFailed hcall hlast (by simpa [configured, noteError] using hconf) hcorrupt

theorem applied_markSuccess (hcall : i.call = .markSuccess id) :
    Applied p i (p.markSuccess id i.now i.disk).2 := by
  rw [markSuccess]
  split_ifs with hconf hcorrupt
  · exact .refused
  · exact .refused
  · exact .used hcall (by simpa using hconf) (by simpa using hcorrupt)

theorem applied_repairCredentialState (hcall : i.call = .repairCredentialState id) :
    Applied p i (p.repairCredentialState id i.disk).2 := by
  rw [repairCredentialState]
  split_ifs with hconf hcorrupt
  · exact .refused
  · exact .refused
  · cases hdisk : i.disk with
    | error e => exact .refused
    | ok u => exact .repaired hcall (by simpa using hcorrupt)

theorem applied_apply : Applied p i (p.apply i) := by
  rw [apply]
  split
  · next reason hcall =>
    obtain ⟨q, events, hselected, hq⟩ := p.selected_acquire reason i.now i.disk
    rw [hq]
    exact .acquired events hselected
  · next hcall => exact applied_markRateLimited p i hcall
  · next hcall => exact applied_markAuthFailure p i hcall
  · next hcall => exact applied_markSuccess p i hcall
  · next hcall => exact applied_repairCredentialState p i hcall
  · exact .refused

end CredentialPool

/-- A database file, closed or under a pool. -/
inductive Machine
  | closed (db : Database)
  | opened (pool : CredentialPool)

namespace Machine

def db : Machine → Database
  | closed db => db
  | opened pool => pool.db

/-- Opening drops the pool that was there; a refused opening leaves the file closed. -/
def reopen (m : Machine) (opts : PoolOptions) (now : UInt64) : Machine :=
  match openPool m.db opts now with
  | .ok pool => opened pool
  | .error _ => closed m.db

/-- A call on the pool; without a pool there is nothing to call. -/
def apply : Machine → Input → Machine
  | closed db, _ => closed db
  | opened pool, i => opened (pool.apply i)

def step (m : Machine) (i : Input) : Machine :=
  match i.call with
  | .reopen opts => m.reopen opts i.now
  | _ => m.apply i

end Machine

end Octos.Credentials
