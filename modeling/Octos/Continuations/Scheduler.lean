import Octos.Base.Heap
import Octos.Base.Keys
import Octos.Base.Runs
import Octos.Base.Table
import Mathlib.Data.List.Pairwise

/-!
# The queue of master continuations

The scheduler queues turns for a master agent. The pending items are kept in a map from their dedupe
keys, and their order in a heap whose entries may be stale: an entry counts only while the item
pending under its key has its sequence number and its priority. A drained item leaves a claim behind
that refuses a second enqueue of the same key for a while.

Times are in nanoseconds.

## Main results

* `stableDedupeKey_eq_iff`: derived keys tell requests apart
* `drainLoop_spec`: what the loop of a drain takes, and what it leaves
* `changed_apply`: what one call can do to the pending items and to the heap
-/

namespace Octos.Continuations

open List Table

/-! ## Requests and items -/

/-- How long a claim refuses the same key: 30 s for external continuations. -/
def recentClaimGuardWindow : ℤ := 30 * 10 ^ 9

/-- How long a claim refuses the same key: 2 s for completed children and joins. -/
def childScatterReclaimWindow : ℤ := 2 * 10 ^ 9

def maxRedeliveryAttempts : ℕ := 5

inductive MasterContinuationReason
  | childCompleted
  | scatterJoinComplete
  | loopFire
  | goalContinue
  | goalWrapUp
  | external (kind : String)
deriving DecidableEq

inductive MasterContinuationPriority
  | external
  | goalContinue
  | childOrScatterJoinComplete
  | loopFire
deriving DecidableEq

def MasterContinuationPriority.rank : MasterContinuationPriority → ℕ
  | .external => 0
  | .goalContinue => 10
  | .childOrScatterJoinComplete => 20
  | .loopFire => 30

namespace MasterContinuationReason

def priority : MasterContinuationReason → MasterContinuationPriority
  | .loopFire => .loopFire
  | .childCompleted | .scatterJoinComplete => .childOrScatterJoinComplete
  | .goalContinue | .goalWrapUp => .goalContinue
  | .external _ => .external

def stableName : MasterContinuationReason → String
  | .childCompleted => "child_completed"
  | .scatterJoinComplete => "scatter_join_complete"
  | .loopFire => "loop_fire"
  | .goalContinue => "goal_continue"
  | .goalWrapUp => "goal_wrap_up"
  | .external _ => "external"

def externalKind : MasterContinuationReason → Option String
  | .external kind => some kind
  | _ => none

/-- How long a claim refuses a request for this reason; loops and goals recur and are never
refused. -/
def reclaimWindow : MasterContinuationReason → Option ℤ
  | .external _ => some recentClaimGuardWindow
  | .childCompleted | .scatterJoinComplete => some childScatterReclaimWindow
  | _ => none

/-- Draining an item for this reason leaves a claim. -/
def guardable : MasterContinuationReason → Bool
  | .external _ | .childCompleted | .scatterJoinComplete => true
  | _ => false

end MasterContinuationReason

structure MasterContinuationRequest where
  groupId : String
  sessionId : String
  profileId : String
  reason : MasterContinuationReason
  childAgentId : Option String := none
  goalId : Option String := none
  loopId : Option String := none
  metadata : Table String String := .empty
  createdAt : ℤ
  dedupeKey : Option String := none

/-- A labelled part of a dedupe key, with its lengths in bytes. -/
def keyPart (label value : String) : String :=
  toString label.utf8ByteSize ++ ":" ++ label ++ "=" ++ toString value.utf8ByteSize ++ ":" ++
    value ++ ";"

def optionalKeyPart (label : String) (value : Option String) : String :=
  (value.map (keyPart label)).getD ""

/-- The explicit key of a request, or the key made of all that identifies it. -/
def MasterContinuationRequest.stableDedupeKey (request : MasterContinuationRequest) : String :=
  match request.dedupeKey with
  | some key => key
  | none =>
    keyPart "group" request.groupId ++ keyPart "session" request.sessionId ++
      keyPart "profile" request.profileId ++ keyPart "reason" request.reason.stableName ++
      optionalKeyPart "external" request.reason.externalKind ++
      optionalKeyPart "child" request.childAgentId ++ optionalKeyPart "goal" request.goalId ++
      optionalKeyPart "loop" request.loopId ++
      String.join (request.metadata.entries.map fun entry =>
        keyPart "metadata_key" entry.1 ++ keyPart "metadata_value" entry.2)

/-! ## Derived keys -/

section

variable {ps qs : List (String × String)}

theorem keyPart_eq (label value : String) :
    keyPart label value = sized label ++ "=" ++ sized value ++ ";" := by
  simp [keyPart, sized, String.append_assoc]

def spell (p : String × String) : List Char := (keyPart p.1 p.2).toList

theorem spell_append_inj {p q : String × String} {s t : List Char}
    (h : spell p ++ s = spell q ++ t) : p = q ∧ s = t := by
  simp only [spell, keyPart_eq, String.toList_append, append_assoc] at h
  obtain ⟨hlabel, h⟩ := sized_append_inj h
  obtain ⟨hvalue, h⟩ := sized_append_inj (append_cancel_left h)
  exact ⟨Prod.ext hlabel hvalue, append_cancel_left h⟩

/-- The part that is there if a value is. -/
def optionalPart (label : String) (value : Option String) : List (String × String) :=
  (value.map (label, ·)).toList

/-- An optional part is there or not, if what comes next has other labels. -/
theorem optionalPart_append_inj {label : String} {u v : Option String}
    (hlabel : label ∉ (ps ++ qs).map Prod.fst)
    (h : optionalPart label u ++ ps = optionalPart label v ++ qs) : u = v ∧ ps = qs := by
  simp only [optionalPart] at h
  cases u <;> cases v <;> grind

def metadataParts (entries : List (String × String)) : List (String × String) :=
  entries.flatMap fun e => [("metadata_key", e.1), ("metadata_value", e.2)]

theorem metadataParts_inj (h : metadataParts ps = metadataParts qs) : ps = qs := by
  refine eq_of_flatMap_eq (by simp) (fun h => ?_) h
  simp only [cons_append, nil_append, cons.injEq, Prod.mk.injEq, true_and] at h
  exact ⟨Prod.ext h.1 h.2.1, h.2.2⟩

def derivedParts (r : MasterContinuationRequest) : List (String × String) :=
  ("group", r.groupId) :: ("session", r.sessionId) :: ("profile", r.profileId) ::
    ("reason", r.reason.stableName) :: (optionalPart "external" r.reason.externalKind ++
      (optionalPart "child" r.childAgentId ++ (optionalPart "goal" r.goalId ++
        (optionalPart "loop" r.loopId ++ metadataParts r.metadata.entries))))

theorem toList_stableDedupeKey {r : MasterContinuationRequest} (h : r.dedupeKey = none) :
    r.stableDedupeKey.toList = (derivedParts r).flatMap spell := by
  have hpart : ∀ (label : String) (v : Option String),
      (optionalKeyPart label v).toList = (optionalPart label v).flatMap spell := by
    intro label v
    cases v <;> simp [optionalKeyPart, optionalPart, spell]
  simp only [MasterContinuationRequest.stableDedupeKey, h, String.toList_append, hpart,
    String.toList_join, derivedParts, spell, flatMap_cons, flatMap_append, metadataParts,
    flatMap_assoc, flatMap_map, flatMap_nil, append_nil, append_assoc]

/-- **Derived keys are equal exactly if all that identifies the requests is**, also when some values
look like parts of a key. -/
theorem stableDedupeKey_eq_iff (r r' : MasterContinuationRequest) (h : r.dedupeKey = none)
    (h' : r'.dedupeKey = none) :
    r.stableDedupeKey = r'.stableDedupeKey ↔
      r.groupId = r'.groupId ∧ r.sessionId = r'.sessionId ∧ r.profileId = r'.profileId ∧
      r.reason = r'.reason ∧ r.childAgentId = r'.childAgentId ∧ r.goalId = r'.goalId ∧
      r.loopId = r'.loopId ∧ r.metadata = r'.metadata := by
  constructor
  · intro hkey
    rw [← String.toList_inj, toList_stableDedupeKey h, toList_stableDedupeKey h'] at hkey
    have hparts := eq_of_flatMap_eq (by simp [spell, keyPart]) spell_append_inj hkey
    simp only [derivedParts, cons.injEq, Prod.mk.injEq, true_and] at hparts
    obtain ⟨hgroup, hsession, hprofile, hname, hrest⟩ := hparts
    obtain ⟨hkind, hrest⟩ := optionalPart_append_inj (by simp [optionalPart, metadataParts]) hrest
    obtain ⟨hchild, hrest⟩ := optionalPart_append_inj (by simp [optionalPart, metadataParts]) hrest
    obtain ⟨hgoal, hrest⟩ := optionalPart_append_inj (by simp [optionalPart, metadataParts]) hrest
    obtain ⟨hloop, hrest⟩ := optionalPart_append_inj (by simp [metadataParts]) hrest
    have hreason : r.reason = r'.reason := by
      cases hr : r.reason <;> cases hr' : r'.reason <;>
        simp_all [MasterContinuationReason.stableName, MasterContinuationReason.externalKind]
    refine ⟨hgroup, hsession, hprofile, hreason, hchild, hgoal, hloop, Table.ext_get fun k => ?_⟩
    rw [Table.get, Table.get, metadataParts_inj hrest]
  · rintro ⟨hg, hs, hp, hr, hc, ho, hl, hm⟩
    simp [MasterContinuationRequest.stableDedupeKey, h, h', hg, hs, hp, hr, hc, ho, hl, hm]

/-- A goal and its loop, and a goal named like both parts. -/
theorem stableDedupeKey_ne :
    ({ groupId := "g", sessionId := "s", profileId := "p", reason := .goalContinue, createdAt := 0,
       goalId := some "a", loopId := some "b" } : MasterContinuationRequest).stableDedupeKey ≠
    ({ groupId := "g", sessionId := "s", profileId := "p", reason := .goalContinue, createdAt := 0,
       goalId := some "a;4:loop=1:b" } : MasterContinuationRequest).stableDedupeKey := by
  intro h
  obtain ⟨-, -, -, -, -, -, hloop, -⟩ := (stableDedupeKey_eq_iff _ _ rfl rfl).mp h
  cases hloop

end

/-! ## Items -/

structure QueuedMasterContinuation where
  id : ℕ
  dedupeKey : String
  priority : MasterContinuationPriority
  sequence : ℕ
  groupId : String
  sessionId : String
  profileId : String
  reason : MasterContinuationReason
  childAgentId : Option String
  goalId : Option String
  loopId : Option String
  metadata : Table String String
  createdAt : ℤ
  enqueuedAt : ℤ
  redeliveryAttempts : ℕ
  persistedAttempt : ℕ
deriving DecidableEq

variable (item : QueuedMasterContinuation)

/-- The workspace of an item; an empty text counts as none. -/
def itemWorkspace : Option String :=
  ((item.metadata.get "workspace_scope").or (item.metadata.get "workspace")).filter (· ≠ "")

inductive MasterContinuationEnqueueOutcome
  | queued (item : QueuedMasterContinuation)
  | duplicate (dedupeKey : String) (existingId : ℕ)

def MasterContinuationEnqueueOutcome.queuedItem :
    MasterContinuationEnqueueOutcome → Option QueuedMasterContinuation
  | .queued item => some item
  | .duplicate .. => none

inductive ReinsertOutcome
  | requeued
  | alreadyPending
  | dropped
deriving DecidableEq

inductive RuntimeActivity
  | idle
  | busy
deriving DecidableEq

structure MasterContinuationRuntimeState where
  activity : RuntimeActivity
  userInputPending : Bool
  approvalPending : Bool

def MasterContinuationRuntimeState.idle : MasterContinuationRuntimeState := ⟨.idle, false, false⟩

def MasterContinuationRuntimeState.isIdleEligible (state : MasterContinuationRuntimeState) : Bool :=
  state.activity == .idle && !state.userInputPending && !state.approvalPending

/-! ## The heap -/

structure HeapEntry where
  priority : MasterContinuationPriority
  sequence : ℕ
  dedupeKey : String
deriving DecidableEq

/-- The heap gives out `e` no later than `e'`: a higher rank first, then the older sequence number,
then the greater key. -/
def HeapEntry.before (e e' : HeapEntry) : Prop :=
  e'.priority.rank < e.priority.rank ∨ e.priority.rank = e'.priority.rank ∧
    (e.sequence < e'.sequence ∨ e.sequence = e'.sequence ∧ e'.dedupeKey ≤ e.dedupeKey)

instance HeapEntry.decidableBefore : DecidableRel HeapEntry.before := fun _ _ =>
  inferInstanceAs (Decidable (_ ∨ _))

instance HeapEntry.totalBefore : Std.Total HeapEntry.before where
  total e e' := by
    have hkey := le_total e.dedupeKey e'.dedupeKey
    unfold before
    grind

instance HeapEntry.transBefore : IsTrans HeapEntry HeapEntry.before where
  trans e e' e'' h h' := by
    have hkey : e'.dedupeKey ≤ e.dedupeKey → e''.dedupeKey ≤ e'.dedupeKey →
        e''.dedupeKey ≤ e.dedupeKey := fun h h' => h'.trans h
    unfold before at *
    grind

/-- The heap entry that counts for an item. -/
def QueuedMasterContinuation.entry : HeapEntry :=
  ⟨item.priority, item.sequence, item.dedupeKey⟩

theorem QueuedMasterContinuation.entry_sequence : item.entry.sequence = item.sequence := rfl

/-! ## The scheduler -/

/-- `next_id` and `next_sequence` are `u64`: what is said about numbers is about runs of fewer than
`2 ^ 64` calls (`nextSequence_le`). -/
structure MasterContinuationScheduler where
  heap : Heap HeapEntry.before
  pendingByKey : Table String QueuedMasterContinuation
  nextId : ℕ
  nextSequence : ℕ
  recentlyClaimedExternal : Table String ℤ

/-- A claim still refuses its key at the time `candidate`. -/
def withinClaimWindow (claimedAt candidate window : ℤ) : Bool := candidate - claimedAt ≤ window

/-- Recording that an item was claimed. The claim carries the time at which the item was queued. -/
def recordExternalClaim (claimed : Table String ℤ) (item : QueuedMasterContinuation) :
    Table String ℤ :=
  if item.reason.guardable then claimed.insert item.dedupeKey item.enqueuedAt else claimed

/-- The item that a heap entry stands for, if the entry is not stale. -/
def entryMatchesPending (pending : Table String QueuedMasterContinuation) (entry : HeapEntry) :
    Option QueuedMasterContinuation :=
  (pending.get entry.dedupeKey).filter fun item =>
    item.sequence = entry.sequence ∧ item.priority = entry.priority

/-- What the loop of a drain has taken from the heap and left in it. -/
structure DrainLoop where
  drained : List QueuedMasterContinuation
  held : List HeapEntry
  heap : List HeapEntry
  pending : Table String QueuedMasterContinuation
  claimed : Table String ℤ

/-- The loop of a drain that has room for `room` more items. -/
def drainLoop (wanted : QueuedMasterContinuation → Bool) : ℕ → List HeapEntry →
    Table String QueuedMasterContinuation → Table String ℤ → DrainLoop
  | 0, heap, pending, claimed => ⟨[], [], heap, pending, claimed⟩
  | _ + 1, [], pending, claimed => ⟨[], [], [], pending, claimed⟩
  | room + 1, entry :: heap, pending, claimed =>
    match entryMatchesPending pending entry with
    | none => drainLoop wanted (room + 1) heap pending claimed
    | some item =>
      if wanted item then
        let rest := drainLoop wanted room heap (pending.erase entry.dedupeKey)
          (recordExternalClaim claimed item)
        { rest with drained := item :: rest.drained }
      else
        let rest := drainLoop wanted (room + 1) heap pending claimed
        { rest with held := entry :: rest.held }

/-- An item of a session of a profile that satisfies the predicate of the caller. -/
def wantedBy (sessionId profileId : String) (eligible : QueuedMasterContinuation → Bool)
    (item : QueuedMasterContinuation) : Bool :=
  item.sessionId == sessionId && item.profileId == profileId && eligible item

namespace MasterContinuationScheduler

variable (s : MasterContinuationScheduler)

def new : MasterContinuationScheduler := ⟨.empty, .empty, 1, 0, .empty⟩

variable (item : QueuedMasterContinuation)

/-- Queueing an item behind all others of its priority. -/
def insertItem : MasterContinuationScheduler :=
  { s with
    heap := s.heap.push { item with sequence := s.nextSequence }.entry
    pendingByKey := s.pendingByKey.insert item.dedupeKey { item with sequence := s.nextSequence }
    nextSequence := s.nextSequence + 1 }

def pruneRecentlyClaimed (now : ℤ) : MasterContinuationScheduler :=
  { s with recentlyClaimedExternal := s.recentlyClaimedExternal.filter fun _ claimedAt =>
      withinClaimWindow claimedAt now recentClaimGuardWindow }

variable (request : MasterContinuationRequest)

def itemOf (enqueuedAt : ℤ) : QueuedMasterContinuation where
  id := s.nextId
  dedupeKey := request.stableDedupeKey
  priority := request.reason.priority
  sequence := s.nextSequence
  groupId := request.groupId
  sessionId := request.sessionId
  profileId := request.profileId
  reason := request.reason
  childAgentId := request.childAgentId
  goalId := request.goalId
  loopId := request.loopId
  metadata := request.metadata
  createdAt := request.createdAt
  enqueuedAt := enqueuedAt
  redeliveryAttempts := 0
  persistedAttempt := 0

def refusedByClaim (enqueuedAt : ℤ) : Bool :=
  match request.reason.reclaimWindow, s.recentlyClaimedExternal.get request.stableDedupeKey with
  | some window, some claimedAt => withinClaimWindow claimedAt enqueuedAt window
  | _, _ => false

def enqueueAt (enqueuedAt : ℤ) : MasterContinuationScheduler × MasterContinuationEnqueueOutcome :=
  let dedupeKey := request.stableDedupeKey
  match s.pendingByKey.get dedupeKey with
  | some existing => (s, .duplicate dedupeKey existing.id)
  | none =>
    let s := s.pruneRecentlyClaimed enqueuedAt
    if s.refusedByClaim request enqueuedAt then (s, .duplicate dedupeKey 0)
    else
      let item := s.itemOf request enqueuedAt
      ({ s.insertItem item with nextId := s.nextId + 1 }, .queued item)

variable (dedupeKey : String)

def cancel : MasterContinuationScheduler × Option QueuedMasterContinuation :=
  ({ s with pendingByKey := s.pendingByKey.erase dedupeKey }, s.pendingByKey.get dedupeKey)

def stampPersistedAttempt (attempt : ℕ) : MasterContinuationScheduler :=
  match s.pendingByKey.get dedupeKey with
  | some item =>
    let item := { item with persistedAttempt := max item.persistedAttempt attempt }
    { s with pendingByKey := s.pendingByKey.insert dedupeKey item }
  | none => s

def withoutClaim : MasterContinuationScheduler :=
  { s with recentlyClaimedExternal := s.recentlyClaimedExternal.erase dedupeKey }

def reinsert : MasterContinuationScheduler × ReinsertOutcome :=
  let s := s.withoutClaim item.dedupeKey
  match s.pendingByKey.get item.dedupeKey with
  | some _ => (s, .alreadyPending)
  | none =>
    let item := { item with redeliveryAttempts := item.redeliveryAttempts + 1 }
    if maxRedeliveryAttempts < item.redeliveryAttempts then (s, .dropped)
    else (s.insertItem item, .requeued)

def requeueTaken : MasterContinuationScheduler :=
  let s := s.withoutClaim item.dedupeKey
  match s.pendingByKey.get item.dedupeKey with
  | some _ => s
  | none => s.insertItem item

def replacePendingPayload (now : ℤ) :
    MasterContinuationScheduler × MasterContinuationEnqueueOutcome :=
  let dedupeKey := request.stableDedupeKey
  let s := { s with pendingByKey := s.pendingByKey.erase dedupeKey }
  (s.withoutClaim dedupeKey).enqueueAt request now

def drainReadyForSessionIf (runtimeState : MasterContinuationRuntimeState) (maxItems : ℕ)
    (sessionId profileId : String) (eligible : QueuedMasterContinuation → Bool) :
    MasterContinuationScheduler × List QueuedMasterContinuation :=
  if maxItems = 0 ∨ runtimeState.isIdleEligible = false then (s, [])
  else
    let loop := drainLoop (wantedBy sessionId profileId eligible) maxItems s.heap.entries
      s.pendingByKey s.recentlyClaimedExternal
    ({ s with
        heap := (Heap.ofList loop.heap).pushAll loop.held
        pendingByKey := loop.pending
        recentlyClaimedExternal := loop.claimed },
      loop.drained)

/-- A pending terminal item of a session, profile, group and workspace. -/
def terminalInScope (sessionId profileId groupId : String) (workspace : Option String)
    (eligible : QueuedMasterContinuation → Bool) (item : QueuedMasterContinuation) : Bool :=
  item.sessionId == sessionId && item.profileId == profileId &&
    (item.reason == .childCompleted || item.reason == .scatterJoinComplete) &&
    item.groupId == groupId && itemWorkspace item == workspace && eligible item

/-- Claiming items: they are no longer pending, and each leaves its claim. -/
def claimAll (items : List QueuedMasterContinuation) : MasterContinuationScheduler :=
  { s with
    pendingByKey := items.foldl (fun pending item => pending.erase item.dedupeKey) s.pendingByKey
    recentlyClaimedExternal := items.foldl recordExternalClaim s.recentlyClaimedExternal }

def takePendingTerminalForScope (sessionId profileId groupId : String) (workspace : Option String)
    (eligible : QueuedMasterContinuation → Bool) :
    MasterContinuationScheduler × List QueuedMasterContinuation :=
  let taken := s.pendingByKey.values.filter
    (terminalInScope sessionId profileId groupId workspace eligible)
  (s.claimAll taken, taken.insertionSort fun item item' => item.sequence ≤ item'.sequence)

/-- Some claim of a key that begins with `keyPrefix` is still recent. -/
def hasRecentExternalClaimWithPrefix (keyPrefix : String) (now : ℤ) : Bool :=
  s.recentlyClaimedExternal.entries.any fun entry =>
    keyPrefix.toList.isPrefixOf entry.1.toList &&
      withinClaimWindow entry.2 now recentClaimGuardWindow

def clearRecentExternalClaim : MasterContinuationScheduler × Bool :=
  (s.withoutClaim dedupeKey, (s.recentlyClaimedExternal.get dedupeKey).isSome)

end MasterContinuationScheduler

/-! ## Calls -/

inductive Call
  | enqueueAt (request : MasterContinuationRequest) (enqueuedAt : ℤ)
  | cancel (dedupeKey : String)
  | stampPersistedAttempt (dedupeKey : String) (attempt : ℕ)
  | reinsert (item : QueuedMasterContinuation)
  | requeueTaken (item : QueuedMasterContinuation)
  | replacePendingPayload (request : MasterContinuationRequest) (now : ℤ)
  | drainReadyForSessionIf (runtimeState : MasterContinuationRuntimeState) (maxItems : ℕ)
      (sessionId profileId : String) (eligible : QueuedMasterContinuation → Bool)
  | takePendingTerminalForScope (sessionId profileId groupId : String) (workspace : Option String)
      (eligible : QueuedMasterContinuation → Bool)
  | clearRecentExternalClaim (dedupeKey : String)

inductive Response
  | enqueued (outcome : MasterContinuationEnqueueOutcome)
  | cancelled (item : Option QueuedMasterContinuation)
  | done
  | reinserted (outcome : ReinsertOutcome)
  | handed (items : List QueuedMasterContinuation)
  | cleared (removed : Bool)

/-- The items that a response hands over to the caller. -/
def Response.returned : Response → List QueuedMasterContinuation
  | .cancelled item => item.toList
  | .handed items => items
  | _ => []

/-- The key whose pending item a call replaces. -/
def Call.replaces : Call → Option String
  | .replacePendingPayload request _ => some request.stableDedupeKey
  | _ => none

namespace MasterContinuationScheduler

def apply (s : MasterContinuationScheduler) : Call → MasterContinuationScheduler × Response
  | .enqueueAt request enqueuedAt =>
    let r := s.enqueueAt request enqueuedAt
    (r.1, .enqueued r.2)
  | .cancel dedupeKey =>
    let r := s.cancel dedupeKey
    (r.1, .cancelled r.2)
  | .stampPersistedAttempt dedupeKey attempt => (s.stampPersistedAttempt dedupeKey attempt, .done)
  | .reinsert item =>
    let r := s.reinsert item
    (r.1, .reinserted r.2)
  | .requeueTaken item => (s.requeueTaken item, .done)
  | .replacePendingPayload request now =>
    let r := s.replacePendingPayload request now
    (r.1, .enqueued r.2)
  | .drainReadyForSessionIf runtimeState maxItems sessionId profileId eligible =>
    let r := s.drainReadyForSessionIf runtimeState maxItems sessionId profileId eligible
    (r.1, .handed r.2)
  | .takePendingTerminalForScope sessionId profileId groupId workspace eligible =>
    let r := s.takePendingTerminalForScope sessionId profileId groupId workspace eligible
    (r.1, .handed r.2)
  | .clearRecentExternalClaim dedupeKey =>
    let r := s.clearRecentExternalClaim dedupeKey
    (r.1, .cleared r.2)

def step (s : MasterContinuationScheduler) (c : Call) : MasterContinuationScheduler := (s.apply c).1

end MasterContinuationScheduler

/-! ## The loop of a drain -/

section

variable {pending : Table String QueuedMasterContinuation} {entry : HeapEntry}
  {item : QueuedMasterContinuation}

theorem entryMatchesPending_eq_some :
    entryMatchesPending pending entry = some item ↔
      pending.get entry.dedupeKey = some item ∧ item.sequence = entry.sequence ∧
        item.priority = entry.priority := by
  rw [entryMatchesPending, Option.filter_eq_some_iff, decide_eq_true_eq]

/-- The items carry the keys under which they are pending. -/
def Keyed (pending : Table String QueuedMasterContinuation) : Prop :=
  ∀ k item, pending.get k = some item → item.dedupeKey = k

theorem Keyed.erase (h : Keyed pending) (k : String) : Keyed (pending.erase k) := by
  intro k' item hk'
  rw [get_erase] at hk'
  split_ifs at hk'
  exact h k' item hk'

theorem Keyed.entry_eq (h : Keyed pending) (he : entryMatchesPending pending entry = some item) :
    item.entry = entry := by
  obtain ⟨hget, hseq, hprio⟩ := entryMatchesPending_eq_some.mp he
  rw [QueuedMasterContinuation.entry, hseq, hprio, h _ _ hget]

theorem entryMatchesPending_erase {k : String} (hk : pending.get k = some item)
    (hne : item.sequence ≠ entry.sequence) :
    entryMatchesPending (pending.erase k) entry = entryMatchesPending pending entry := by
  rw [entryMatchesPending, entryMatchesPending, get_erase]
  split_ifs with h
  · rw [h, hk, Option.filter_none, Option.filter_some, if_neg]
    simp [hne]
  · rfl

/-- What the loop of a drain takes, and what it leaves. -/
structure DrainLoop.Spec (wanted : QueuedMasterContinuation → Bool) (room : ℕ)
    (heap : List HeapEntry) (pending : Table String QueuedMasterContinuation)
    (claimed : Table String ℤ) (loop : DrainLoop) : Prop where
  drained : loop.drained = ((heap.filterMap (entryMatchesPending pending)).filter wanted).take room
  erased : loop.pending = loop.drained.foldl (fun p item => p.erase item.dedupeKey) pending
  recorded : loop.claimed = loop.drained.foldl recordExternalClaim claimed
  sublist : (loop.held ++ loop.heap).Sublist heap
  covers : ∀ entry ∈ heap, ∀ item, entryMatchesPending pending entry = some item →
    item ∉ loop.drained → entry ∈ loop.held ++ loop.heap

theorem drainLoop_spec (wanted : QueuedMasterContinuation → Bool) (room : ℕ)
    {heap : List HeapEntry} (hheap : heap.Pairwise fun e e' => e.sequence ≠ e'.sequence)
    (hkeyed : Keyed pending) (claimed : Table String ℤ) :
    DrainLoop.Spec wanted room heap pending claimed
      (drainLoop wanted room heap pending claimed) := by
  induction heap generalizing room pending claimed with
  | nil => cases room <;> exact ⟨by simp [drainLoop], rfl, rfl, by simp [drainLoop], by simp⟩
  | cons entry heap ih =>
    obtain ⟨hentry, hheap⟩ := pairwise_cons.mp hheap
    cases room with
    | zero => exact ⟨by simp [drainLoop], rfl, rfl, List.Sublist.refl _, fun e he _ _ _ => he⟩
    | succ room =>
      rw [drainLoop]
      cases hmatch : entryMatchesPending pending entry with
      | none =>
        -- a stale entry is dropped
        obtain ⟨hdrained, hpending, hclaimed, hsub, hcov⟩ := ih (room + 1) hheap hkeyed claimed
        refine ⟨?_, hpending, hclaimed, hsub.trans (sublist_cons_self ..), ?_⟩
        · rw [filterMap_cons_none hmatch]
          exact hdrained
        · intro e he item hitem
          rcases mem_cons.mp he with rfl | he
          · rw [hmatch] at hitem
            cases hitem
          · exact hcov e he item hitem
      | some item =>
        have hkey : item.dedupeKey = entry.dedupeKey :=
          hkeyed _ _ (entryMatchesPending_eq_some.mp hmatch).1
        simp only
        split_ifs with hwanted
        · -- the item is taken; no other entry depends on it
          obtain ⟨hget, hseq, -⟩ := entryMatchesPending_eq_some.mp hmatch
          have hsame : ∀ e ∈ heap, entryMatchesPending (pending.erase entry.dedupeKey) e =
              entryMatchesPending pending e := by
            intro e he
            apply entryMatchesPending_erase hget
            rw [hseq]
            exact hentry e he
          obtain ⟨hdrained, hpending, hclaimed, hsub, hcov⟩ :=
            ih room hheap (hkeyed.erase _) (recordExternalClaim claimed item)
          refine ⟨?_, ?_, hclaimed, hsub.trans (sublist_cons_self ..), ?_⟩
          · rw [filterMap_cons_some hmatch, filter_cons_of_pos hwanted,
              take_succ_cons, ← filterMap_congr hsame, ← hdrained]
          · rw [foldl_cons, hkey]
            exact hpending
          · intro e he item' hitem' hnot
            rw [mem_cons, not_or] at hnot
            rcases mem_cons.mp he with rfl | he
            · rw [hmatch] at hitem'
              exact absurd (Option.some.inj hitem').symm hnot.1
            · exact hcov e he item' (by rwa [hsame e he]) hnot.2
        · -- the entry is held back
          obtain ⟨hdrained, hpending, hclaimed, hsub, hcov⟩ := ih (room + 1) hheap hkeyed claimed
          refine ⟨?_, hpending, hclaimed, hsub.cons_cons _, ?_⟩
          · rw [filterMap_cons_some hmatch, filter_cons_of_neg hwanted]
            exact hdrained
          · intro e he item' hitem' hnot
            rcases mem_cons.mp he with rfl | he
            · exact mem_cons_self
            · exact mem_cons_of_mem _ (hcov e he item' hitem' hnot)

end

/-! ## What one call can do -/

namespace MasterContinuationScheduler

variable {s : MasterContinuationScheduler}

/-- The heap is in step with the pending items: it has the entry of each of them, and no two entries
have one sequence number. -/
structure WellFormed (s : MasterContinuationScheduler) : Prop where
  keyed : Keyed s.pendingByKey
  covered : ∀ k item, s.pendingByKey.get k = some item → item.entry ∈ s.heap.entries
  distinct : s.heap.entries.Pairwise fun e e' => e.sequence ≠ e'.sequence
  fresh : ∀ e ∈ s.heap.entries, e.sequence < s.nextSequence

/-- What a call can do to the pending items and to the heap. -/
inductive Changed (s : MasterContinuationScheduler) (c : Call) :
    Response → MasterContinuationScheduler → Prop
  /-- nothing -/
  | kept {r s'} (hr : r.returned = []) (hpending : s'.pendingByKey = s.pendingByKey)
      (hheap : s'.heap = s.heap) (hnext : s'.nextSequence = s.nextSequence) : Changed s c r s'
  /-- an item is queued with a fresh sequence number, in the place of another one only if the call
  replaces it -/
  | inserted {r s'} (item : QueuedMasterContinuation) (hr : r.returned = [])
      (hseq : item.sequence = s.nextSequence)
      (hfree : s.pendingByKey.get item.dedupeKey = none ∨ c.replaces = some item.dedupeKey)
      (hpending : s'.pendingByKey = s.pendingByKey.insert item.dedupeKey item)
      (hheap : s'.heap = s.heap.push item.entry)
      (hnext : s'.nextSequence = s.nextSequence + 1) : Changed s c r s'
  /-- a pending item is stamped -/
  | stamped {r s'} (k : String) (item : QueuedMasterContinuation) (attempt : ℕ)
      (hr : r.returned = []) (hget : s.pendingByKey.get k = some item)
      (hpending : s'.pendingByKey =
        s.pendingByKey.insert k { item with persistedAttempt := attempt })
      (hheap : s'.heap = s.heap) (hnext : s'.nextSequence = s.nextSequence) : Changed s c r s'
  /-- pending items are handed over, and no other entry of the heap is lost -/
  | removed {r s'} (hitems : ∀ item ∈ r.returned, s.pendingByKey.get item.dedupeKey = some item)
      (hdistinct : r.returned.Pairwise fun item item' => item.sequence ≠ item'.sequence)
      (hpending : ∀ k, s'.pendingByKey.get k =
        if k ∈ r.returned.map (·.dedupeKey) then none else s.pendingByKey.get k)
      (hsub : s'.heap.entries.Subperm s.heap.entries)
      (hcov : ∀ k item, s'.pendingByKey.get k = some item → item.entry ∈ s'.heap.entries)
      (hnext : s'.nextSequence = s.nextSequence) : Changed s c r s'

theorem get_eraseAll (items : List QueuedMasterContinuation)
    (pending : Table String QueuedMasterContinuation) (k : String) :
    (items.foldl (fun pending item => pending.erase item.dedupeKey) pending).get k =
      if k ∈ items.map (·.dedupeKey) then none else pending.get k := by
  induction items generalizing pending with
  | nil => rfl
  | cons item items ih =>
    rw [foldl_cons, ih, get_erase]
    simp only [map_cons, mem_cons]
    split_ifs <;> tauto

variable {item : QueuedMasterContinuation}

theorem WellFormed.eq_of_sequence (h : s.WellFormed) {k k' : String}
    {item' : QueuedMasterContinuation} (hk : s.pendingByKey.get k = some item)
    (hk' : s.pendingByKey.get k' = some item') (hseq : item.sequence = item'.sequence) :
    item = item' := by
  have : Std.Symm fun e e' : HeapEntry => e.sequence ≠ e'.sequence := ⟨fun _ _ => Ne.symm⟩
  have hentry : item.entry = item'.entry := by
    by_contra hne
    exact h.distinct.forall (h.covered k item hk) (h.covered k' item' hk') hne hseq
  have hkey : k = k' := by
    rw [← h.keyed k item hk, ← h.keyed k' item' hk']
    exact congrArg HeapEntry.dedupeKey hentry
  rw [hkey, hk'] at hk
  exact (Option.some.inj hk).symm

/-- The pending items in the order in which the heap gives out their entries. -/
def queue (s : MasterContinuationScheduler) : List QueuedMasterContinuation :=
  s.heap.entries.filterMap (entryMatchesPending s.pendingByKey)

theorem WellFormed.match_entry (h : s.WellFormed) {k : String}
    (hk : s.pendingByKey.get k = some item) :
    entryMatchesPending s.pendingByKey item.entry = some item := by
  rw [entryMatchesPending_eq_some]
  exact ⟨by rw [← hk, ← h.keyed k item hk]; rfl, rfl, rfl⟩

theorem WellFormed.mem_queue (h : s.WellFormed) :
    item ∈ s.queue ↔ s.pendingByKey.get item.dedupeKey = some item := by
  rw [queue, mem_filterMap]
  constructor
  · rintro ⟨e, -, he⟩
    have hget := (entryMatchesPending_eq_some.mp he).1
    rw [h.keyed _ _ hget, hget]
  · intro hget
    exact ⟨item.entry, h.covered _ item hget, h.match_entry hget⟩

theorem WellFormed.queue_distinct (h : s.WellFormed) :
    s.queue.Pairwise fun item item' => item.sequence ≠ item'.sequence := by
  refine h.distinct.filterMap _ fun e e' hne item he item' he' => ?_
  rw [(entryMatchesPending_eq_some.mp he).2.1, (entryMatchesPending_eq_some.mp he').2.1]
  exact hne

variable (c : Call)

theorem changed_enqueueAt (request : MasterContinuationRequest) (enqueuedAt : ℤ) :
    Changed s c (.enqueued (s.enqueueAt request enqueuedAt).2)
      (s.enqueueAt request enqueuedAt).1 := by
  rw [enqueueAt]
  cases hget : s.pendingByKey.get request.stableDedupeKey with
  | some => exact .kept rfl rfl rfl rfl
  | none =>
    simp only
    split_ifs
    · exact .kept rfl rfl rfl rfl
    · exact .inserted (s.itemOf request enqueuedAt) rfl rfl (.inl hget) rfl rfl rfl

theorem changed_reinsert (item : QueuedMasterContinuation) :
    Changed s c (.reinserted (s.reinsert item).2) (s.reinsert item).1 := by
  rw [reinsert]
  simp only
  split
  · exact .kept rfl rfl rfl rfl
  · rename_i hget
    split_ifs
    · exact .kept rfl rfl rfl rfl
    · exact .inserted { item with
        redeliveryAttempts := item.redeliveryAttempts + 1, sequence := s.nextSequence }
        rfl rfl (.inl hget) rfl rfl rfl

theorem changed_requeueTaken (item : QueuedMasterContinuation) :
    Changed s c .done (s.requeueTaken item) := by
  rw [requeueTaken]
  split
  · exact .kept rfl rfl rfl rfl
  · rename_i hget
    exact .inserted { item with sequence := s.nextSequence } rfl rfl (.inl hget) rfl rfl rfl

theorem changed_stampPersistedAttempt (dedupeKey : String) (attempt : ℕ) :
    Changed s c .done (s.stampPersistedAttempt dedupeKey attempt) := by
  rw [stampPersistedAttempt]
  split
  · rename_i item hget
    exact .stamped dedupeKey item _ rfl hget rfl rfl rfl
  · exact .kept rfl rfl rfl rfl

theorem changed_cancel (h : s.WellFormed) (c : Call) (dedupeKey : String) :
    Changed s c (.cancelled (s.cancel dedupeKey).2) (s.cancel dedupeKey).1 := by
  rw [cancel]
  cases hget : s.pendingByKey.get dedupeKey with
  | none => exact .kept rfl (erase_eq_self hget) rfl rfl
  | some item =>
    have hkey := h.keyed _ _ hget
    refine .removed ?_ (pairwise_singleton ..) ?_ (List.Subperm.refl _) ?_ rfl
    · rintro item' hitem'
      obtain rfl := mem_singleton.mp hitem'
      rw [hkey, hget]
    · intro k
      simp [Response.returned, get_erase, hkey]
    · intro k item' hitem'
      simp only [get_erase] at hitem'
      split_ifs at hitem'
      exact h.covered k item' hitem'

theorem enqueueAt_of_free {request : MasterContinuationRequest} {enqueuedAt : ℤ}
    (hpending : s.pendingByKey.get request.stableDedupeKey = none)
    (hclaim : s.recentlyClaimedExternal.get request.stableDedupeKey = none) :
    s.enqueueAt request enqueuedAt =
      ({ (s.pruneRecentlyClaimed enqueuedAt).insertItem (s.itemOf request enqueuedAt) with
          nextId := s.nextId + 1 }, .queued (s.itemOf request enqueuedAt)) := by
  have hnot : (s.pruneRecentlyClaimed enqueuedAt).refusedByClaim request enqueuedAt = false := by
    rw [refusedByClaim, pruneRecentlyClaimed, get_filter, hclaim]
    cases request.reason.reclaimWindow <;> rfl
  rw [enqueueAt, hpending]
  simp only [hnot]
  rfl

theorem changed_replacePendingPayload (request : MasterContinuationRequest) (now : ℤ) :
    Changed s (.replacePendingPayload request now)
      (.enqueued (s.replacePendingPayload request now).2)
      (s.replacePendingPayload request now).1 := by
  rw [replacePendingPayload, enqueueAt_of_free (get_erase_self ..) (get_erase_self ..)]
  exact .inserted (s.itemOf request now) rfl rfl (.inr rfl) (insert_erase ..) rfl rfl

theorem perm_heap_drain (loop : DrainLoop) :
    ((Heap.ofList loop.heap : Heap HeapEntry.before).pushAll loop.held).entries.Perm
      (loop.held ++ loop.heap) :=
  (Heap.perm_pushAll ..).trans ((Heap.perm_ofList _).append_left _)

theorem changed_drainReadyForSessionIf (h : s.WellFormed) (c : Call)
    (runtimeState : MasterContinuationRuntimeState) (maxItems : ℕ) (sessionId profileId : String)
    (eligible : QueuedMasterContinuation → Bool) :
    Changed s c
      (.handed (s.drainReadyForSessionIf runtimeState maxItems sessionId profileId eligible).2)
      (s.drainReadyForSessionIf runtimeState maxItems sessionId profileId eligible).1 := by
  rw [drainReadyForSessionIf]
  split_ifs
  · exact .kept rfl rfl rfl rfl
  · obtain ⟨hdrained, herased, -, hsub, hcov⟩ := drainLoop_spec
      (wantedBy sessionId profileId eligible) maxItems h.distinct h.keyed s.recentlyClaimedExternal
    generalize drainLoop (wantedBy sessionId profileId eligible) maxItems s.heap.entries
      s.pendingByKey s.recentlyClaimedExternal = loop at hdrained herased hsub hcov
    have hqueue : loop.drained.Sublist s.queue := by
      rw [hdrained]
      exact (take_sublist ..).trans filter_sublist
    have hget : ∀ k, loop.pending.get k =
        if k ∈ loop.drained.map (·.dedupeKey) then none else s.pendingByKey.get k := by
      intro k
      rw [herased, get_eraseAll]
    refine .removed (fun item hitem => h.mem_queue.mp (hqueue.subset hitem))
      (h.queue_distinct.sublist hqueue) hget
      ((perm_heap_drain loop).subperm.trans hsub.subperm) ?_ rfl
    intro k item hitem
    rw [(perm_heap_drain loop).mem_iff]
    simp only [hget] at hitem
    split_ifs at hitem with hk
    refine hcov item.entry (h.covered k item hitem) item (h.match_entry hitem) fun hdr => hk ?_
    rw [← h.keyed k item hitem]
    exact mem_map_of_mem hdr

theorem changed_takePendingTerminalForScope (h : s.WellFormed) (c : Call)
    (sessionId profileId groupId : String) (workspace : Option String)
    (eligible : QueuedMasterContinuation → Bool) :
    Changed s c
      (.handed (s.takePendingTerminalForScope sessionId profileId groupId workspace eligible).2)
      (s.takePendingTerminalForScope sessionId profileId groupId workspace eligible).1 := by
  rw [takePendingTerminalForScope]
  generalize htaken : s.pendingByKey.values.filter
    (terminalInScope sessionId profileId groupId workspace eligible) = taken
  have hpending : ∀ item ∈ taken, s.pendingByKey.get item.dedupeKey = some item := by
    intro item hitem
    rw [← htaken] at hitem
    obtain ⟨k, hk⟩ := mem_values.mp (mem_filter.mp hitem).1
    rw [h.keyed k item hk, hk]
  have hdistinct : taken.Pairwise fun item item' => item.sequence ≠ item'.sequence := by
    have hkeys := (values_pairwise h.keyed).filter
      (terminalInScope sessionId profileId groupId workspace eligible)
    rw [htaken] at hkeys
    refine hkeys.imp_of_mem fun hitem hitem' hlt hseq => ?_
    rw [h.eq_of_sequence (hpending _ hitem) (hpending _ hitem') hseq] at hlt
    exact lt_irrefl _ hlt
  -- sorting changes neither which items are handed over nor that they differ
  have hperm : (taken.insertionSort fun item item' => item.sequence ≤ item'.sequence).Perm taken :=
    perm_insertionSort ..
  refine .removed (fun item hitem => hpending item (hperm.mem_iff.mp hitem))
    ((hperm.pairwise_iff fun hne => Ne.symm hne).mpr hdistinct) ?_ (List.Subperm.refl _) ?_ rfl
  · intro k
    simp [claimAll, get_eraseAll, Response.returned, (hperm.map _).mem_iff]
  · intro k item hitem
    simp only [claimAll, get_eraseAll] at hitem
    split_ifs at hitem
    exact h.covered k item hitem

/-- **What one call can do**, in a state whose heap is in step. -/
theorem changed_apply (h : s.WellFormed) (c : Call) : Changed s c (s.apply c).2 (s.apply c).1 := by
  cases c with
  | enqueueAt => exact changed_enqueueAt ..
  | cancel => exact changed_cancel h ..
  | stampPersistedAttempt => exact changed_stampPersistedAttempt ..
  | reinsert => exact changed_reinsert ..
  | requeueTaken => exact changed_requeueTaken ..
  | replacePendingPayload => exact changed_replacePendingPayload ..
  | drainReadyForSessionIf => exact changed_drainReadyForSessionIf h ..
  | takePendingTerminalForScope => exact changed_takePendingTerminalForScope h ..
  | clearRecentExternalClaim => exact .kept rfl rfl rfl rfl

theorem wellFormed_new : new.WellFormed where
  keyed := by intro k item h; cases h
  covered := by intro k item h; cases h
  distinct := List.Pairwise.nil
  fresh := by intro e he; cases he

theorem WellFormed.changed {c : Call} {r : Response} {s' : MasterContinuationScheduler}
    (h : s.WellFormed) (hc : Changed s c r s') : s'.WellFormed := by
  cases hc with
  | kept _ hpending hheap hnext =>
    exact ⟨by rw [hpending]; exact h.keyed, by rw [hpending, hheap]; exact h.covered,
      by rw [hheap]; exact h.distinct, by rw [hheap, hnext]; exact h.fresh⟩
  -- A new item has a number above those of all entries.
  | inserted item _ hseq _ hpending hheap hnext =>
    have hperm := s.heap.perm_push item.entry
    refine ⟨?_, ?_, ?_, ?_⟩
    · rw [hpending]
      exact forall_insert (fun k old _ hk => h.keyed k old hk) rfl
    · rw [hpending, hheap]
      refine forall_insert (fun k old _ hk => ?_) (hperm.mem_iff.mpr mem_cons_self)
      exact hperm.mem_iff.mpr (mem_cons_of_mem _ (h.covered k old hk))
    · rw [hheap]
      refine (hperm.pairwise_iff fun hne => Ne.symm hne).mpr (pairwise_cons.mpr ⟨?_, h.distinct⟩)
      intro e he
      rw [item.entry_sequence, hseq]
      exact (h.fresh e he).ne'
    · intro e he
      rw [hheap] at he
      rw [hnext]
      rcases mem_cons.mp (hperm.mem_iff.mp he) with rfl | he
      · rw [item.entry_sequence, hseq]
        exact Nat.lt_succ_self _
      · exact (h.fresh e he).trans (Nat.lt_succ_self _)
  | stamped k item attempt _ hget hpending hheap hnext =>
    refine ⟨?_, ?_, by rw [hheap]; exact h.distinct, by rw [hheap, hnext]; exact h.fresh⟩
    · rw [hpending]
      exact forall_insert (fun k' old _ hk' => h.keyed k' old hk') (h.keyed k item hget)
    · rw [hpending, hheap]
      exact forall_insert (fun k' old _ hk' => h.covered k' old hk') (h.covered k item hget)
  -- What is left of the heap is a part of it.
  | removed hitems _ hpending hsub hcov hnext =>
    refine ⟨?_, hcov, ?_, ?_⟩
    · intro k item hk
      rw [hpending] at hk
      split_ifs at hk
      exact h.keyed k item hk
    · obtain ⟨l, hperm, hl⟩ := hsub
      exact (hperm.pairwise_iff fun hne => Ne.symm hne).mp (h.distinct.sublist hl)
    · intro e he
      rw [hnext]
      exact h.fresh e (hsub.subset he)

theorem WellFormed.afterStep (h : s.WellFormed) (c : Call) : (s.step c).WellFormed :=
  h.changed (changed_apply h c)

theorem wellFormed_run (calls : List Call) : (runSteps step new calls).WellFormed :=
  runSteps_invariant (fun _ c h => h.afterStep c) wellFormed_new calls

end MasterContinuationScheduler

end Octos.Continuations
