import Octos.Fleet.Store.Basic

/-!
# Outbox and decision log

Appending, claiming and acknowledging outbox events, and appending to the decision log. The claim
token a consumer is handed is minted by the caller's random generator; it is an argument here.
-/

namespace Octos.Fleet

/-- A fresh, unclaimed event; its sequence is assigned on append. -/
def outboxEvent (kind : FleetEventKind) (eventId fleetId : String)
    (childId attemptId : Option String) : OutboxEvent :=
  { schemaVersion := schemaVersion, sequence := 0, eventId, fleetId, childId, attemptId, kind,
    payload := "null", claimedBy := none, claimToken := none, claimExpiresAt := none,
    acked := false }

/-- The sequence after the greatest key of the outbox. -/
def nextSequence (outbox : Table String OutboxEvent) : Except StoreError UInt64 :=
  match outbox.last with
  | some (k, _) => do
    let last ← orError (parseU64 k) (.corruptOutboxKey k)
    orError (checkedAdd last 1) .outboxSequenceOverflow
  | none => .ok 1

/-- The row an append stores at sequence `seq`. -/
def OutboxEvent.stamped (event : OutboxEvent) (seq : UInt64) : OutboxEvent :=
  { event with sequence := seq, schemaVersion := Fleet.schemaVersion }

/-- Append `event` to an open outbox table, assigning the next sequence. -/
def appendOutbox (outbox : Table String OutboxEvent) (event : OutboxEvent) :
    Except StoreError (Table String OutboxEvent × UInt64) := do
  let next ← nextSequence outbox
  return (outbox.insert (outboxKey next) (event.stamped next), next)

/-- The event has no claim, or its claim expired before `nowMs`. -/
def OutboxEvent.claimFree (ev : OutboxEvent) (nowMs : UInt64) : Bool :=
  ev.claimedBy.isNone || (match ev.claimExpiresAt with
    | some e => e < nowMs
    | none => true)

/-- `claimNext` may claim the row at `nowMs`. -/
def OutboxEvent.claimable (row : OutboxEvent) (nowMs : UInt64) : Bool :=
  match decodeRow row with
  | some ev => !ev.acked && ev.claimFree nowMs
  | none => false

namespace FleetKernelStore

variable (s : FleetKernelStore)

def appendEvent (event : OutboxEvent) : Except StoreError (Committed UInt64) := do
  ensureKeySafe [event.fleetId, event.eventId]
  ensureKeySafe event.childId.toList
  ensureKeySafe event.attemptId.toList
  let (outbox, seq) ← appendOutbox s.outbox event
  return ({ s with outbox }, seq)

/-- Claim the lowest-sequence unacked event whose claim is free or expired, stamping the consumer,
the fresh token and the expiry. -/
def claimNext (consumer : String) (nowMs ttlMs : UInt64) (token : String) :
    Except StoreError (Committed (Option OutboxEvent)) := do
  let some (key, ev) := s.outbox.entries.find? fun p => p.2.claimable nowMs | return (s, none)
  let expires ← orError (checkedAdd nowMs ttlMs) .claimExpiryOverflow
  let ev := { ev with
    claimedBy := some consumer, claimToken := some token, claimExpiresAt := some expires }
  return ({ s with outbox := s.outbox.insert key ev }, some ev)

/-- Acknowledge an event: the presented consumer and token must match the row's claim. -/
def ack (sequence : UInt64) (consumer claimToken : String) :
    Except StoreError (Committed AckOutcome) := do
  let row ← orError (s.outbox.get (outboxKey sequence)) (.ackNotFound sequence)
  let ev ← orError (decodeRow row) (.outboxEventNewerSchema sequence)
  if ev.claimedBy = some consumer ∧ ev.claimToken = some claimToken then
    return ({ s with outbox := s.outbox.insert (outboxKey sequence) { ev with acked := true } },
      .acked)
  else
    return (s, .staleClaim)

/-- Append an entry to the fleet's decision log and return its sequence. -/
def appendDecision (fleetId actor : String) (kind : DecisionKind) (note : String)
    (nowMs : UInt64) : Except StoreError (Committed UInt64) := do
  ensureKeySafe [fleetId]
  let max := s.decisionLog.entries.foldl (fun m p => max m ((decisionSeq p.1 fleetId).getD 0)) 0
  let next ← orError (checkedAdd max 1) (.decisionSequenceOverflow fleetId)
  let entry : DecisionEntry :=
    { schemaVersion := schemaVersion, seq := next, atMs := nowMs, actor, kind, note }
  return ({ s with decisionLog := s.decisionLog.insert (decisionKey fleetId next) entry }, next)

end FleetKernelStore

end Octos.Fleet
