import Octos.Fleet.Steps

/-!
# The events of a call

The outbox is written by three kinds of calls: those that append an event, the claim and the
acknowledgement. An appended event is what the operation reports of its effect, so a call that
does not take effect appends none. Claiming and acknowledging rewrite the claim of one event.
-/

namespace Octos.Fleet

open FleetKernelStore

def Op.appends (s : FleetKernelStore) : Op → Option OutboxEvent
  | .launchChild f c t n o l a e =>
    match s.launchChild f c t n o l a e with
    | .ok (_, .launched _) => some (outboxEvent .childLaunching e f (some c) (some a))
    | _ => none
  | .completeChild f c a v r t o n e =>
    match s.completeChild f c a v r t o n e with
    | .ok (_, .completed) => some (outboxEvent .childDone e f (some c) (some a))
    | _ => none
  | .recordEscalation f c a r t o n e =>
    match s.recordEscalation f c a r t o n e with
    | .ok (_, .completed) => some (outboxEvent .childDone e f (some c) (some a))
    | _ => none
  | .denyEscalation f c r n e =>
    match s.denyEscalation f c r n e with
    | .ok (_, ⟨.completed, _⟩) => some (outboxEvent .childDone e f (some c) none)
    | _ => none
  | .appendEvent ev =>
    match s.appendEvent ev with
    | .ok _ => some ev
    | _ => none
  | _ => none

def OutboxEvent.claimedFor (ev : OutboxEvent) (consumer token : String) (expires : UInt64) :
    OutboxEvent :=
  { ev with
    claimedBy := some consumer, claimToken := some token, claimExpiresAt := some expires }

/-- A claim of an event: its sequence, and the consumer and the token of the claim. -/
structure Claim where
  sequence : UInt64
  consumer : String
  token : String
  deriving DecidableEq

def Op.claims (s : FleetKernelStore) : Op → Option Claim
  | .claimNext consumer now ttl token =>
    match s.claimNext consumer now ttl token with
    | .ok (_, some ev) => some ⟨ev.sequence, consumer, token⟩
    | _ => none
  | _ => none

/-- The steps of the outbox table, with the event they append and the claim they make. -/
inductive OutboxStep (t : Table String OutboxEvent) :
    Option OutboxEvent → Option Claim → Table String OutboxEvent → Prop
  | idle : OutboxStep t none none t
  | append {ev : OutboxEvent} {seq : UInt64} :
      nextSequence t = .ok seq →
      OutboxStep t (some ev) none (t.insert (outboxKey seq) (ev.stamped seq))
  | claim {k : String} {ev : OutboxEvent} {now expires : UInt64} (consumer token : String) :
      t.entries.find? (fun p => p.2.claimable now) = some (k, ev) →
      OutboxStep t none (some ⟨ev.sequence, consumer, token⟩)
        (t.insert k (ev.claimedFor consumer token expires))
  | ack {seq : UInt64} {ev : OutboxEvent} {consumer token : String} :
      t.get (outboxKey seq) = some ev → ev.claimedBy = some consumer →
      ev.claimToken = some token →
      OutboxStep t none none (t.insert (outboxKey seq) { ev with acked := true })

variable {t t' : Table String OutboxEvent}

theorem OutboxStep.of_appendOutbox {ev : OutboxEvent}
    {seq : UInt64} (h : appendOutbox t ev = .ok (t', seq)) : OutboxStep t (some ev) none t' := by
  obtain ⟨next, hnext, hok⟩ := bind_eq_ok.mp h
  cases hok
  exact .append hnext

/-! ## Every call is a step of the outbox -/

variable {s s' : FleetKernelStore}

theorem Effect.outbox_eq {l : Label} (he : Effect l s s') (hl : l ≠ .events) :
    s'.outbox = s.outbox := by
  cases he with
  | events => exact absurd rfl hl
  | _ => rfl

theorem StepsIn.outbox_eq {L : Label → Prop} (hs : StepsIn Effect L s s') (hL : ¬ L .events) :
    s'.outbox = s.outbox :=
  hs.invariant (P := fun t => t.outbox = s.outbox)
    (fun _ _ _ ha he ih => (he.outbox_eq fun hev => hL (hev ▸ ha)).trans ih) rfl

theorem FleetKernelStore.SettleStep.outbox {k : MoveKind} {f c a e : String} {t o : UInt64}
    {out : CompleteOutcome}
    (hs : SettleStep s k f c a e t o s' out) :
    OutboxStep s.outbox
      (if out = .completed then some (outboxEvent .childDone e f (some c) (some a)) else none)
      none s'.outbox := by
  rcases hs with ⟨rfl, rfl⟩ | ⟨rfl, F, C, A, F', C', A', outbox, seq, -, -, -, -, -, happ, rfl⟩
  · exact .idle
  · exact .of_appendOutbox happ

/-- **Every call is a step of the outbox**, which appends the call's event and makes its claim. -/
theorem Op.outboxStep (h : KernelInv s) {op : Op} (hfresh : op.Fresh s) :
    OutboxStep s.outbox (op.appends s) (op.claims s) (op.exec s).outbox := by
  -- a call that writes no event leaves the outbox alone
  by_cases hquiet : op.appends s = none ∧ op.claims s = none ∧ ¬ op.Touches .events
  · rw [hquiet.1, hquiet.2.1, StepsIn.outbox_eq (Op.exec_steps h hfresh) hquiet.2.2]
    exact .idle
  cases op with simp only [Op.exec, Op.perform, Op.appends, Op.claims]
  | launchChild f c t n o l a e =>
    cases hok : s.launchChild f c t n o l a e with
    | error err => exact .idle
    | ok r =>
      obtain ⟨s', out⟩ := r
      rcases launchChild_spec h
        (attempts_get_of_fresh h (launchChild_safe hok) (hfresh a rfl)) hok with
        ⟨rfl, hout⟩ | ⟨rfl, F, C, F', C', A', outbox, seq, -, -, -, -, -, happ, rfl⟩
      · cases out with
        | launched b => exact absurd rfl (hout b)
        | _ => exact .idle
      · exact .of_appendOutbox happ
  | completeChild f c a v r t o n e =>
    cases hok : s.completeChild f c a v r t o n e with
    | error err => exact .idle
    | ok p =>
      obtain ⟨s', out⟩ := p
      have hstep := (completeChild_spec h hok).outbox
      cases out with
      | completed | superseded => exact hstep
  | recordEscalation f c a r t o n e =>
    cases hok : s.recordEscalation f c a r t o n e with
    | error err => exact .idle
    | ok p =>
      obtain ⟨s', out⟩ := p
      have hstep := (recordEscalation_spec h hok).outbox
      cases out with
      | completed | superseded => exact hstep
  | denyEscalation f c r n e =>
    cases hok : s.denyEscalation f c r n e with
    | error err => exact .idle
    | ok p =>
      obtain ⟨s', settled, b⟩ := p
      rcases denyEscalation_spec h hok with
        ⟨rfl, hout⟩ | ⟨hout, F, C, plans, outbox, seq, -, -, happ, rfl⟩
      · cases hout
        exact .idle
      · cases hout
        exact .of_appendOutbox happ
  | appendEvent ev =>
    cases hok : s.appendEvent ev with
    | error err => exact .idle
    | ok p =>
      obtain ⟨_, -, hok⟩ := bind_eq_ok.mp hok
      obtain ⟨_, -, hok⟩ := bind_eq_ok.mp hok
      obtain ⟨_, -, hok⟩ := bind_eq_ok.mp hok
      obtain ⟨⟨outbox, seq⟩, happ, hok⟩ := bind_eq_ok.mp hok
      cases hok
      exact .of_appendOutbox happ
  | claimNext consumer now ttl token =>
    cases hok : s.claimNext consumer now ttl token with
    | error err => exact .idle
    | ok p =>
      unfold FleetKernelStore.claimNext at hok
      split at hok
      · rename_i k ev hfind
        obtain ⟨expires, -, hok⟩ := bind_eq_ok.mp hok
        cases hok
        have hstep : OutboxStep s.outbox none (some ⟨ev.sequence, consumer, token⟩)
            (s.outbox.insert k (ev.claimedFor consumer token expires)) :=
          .claim consumer token hfind
        exact hstep
      · cases hok
        exact .idle
  | ack seq consumer token =>
    cases hok : s.ack seq consumer token with
    | error err => exact .idle
    | ok p =>
      obtain ⟨ev, hget, hok⟩ := bind_eq_ok.mp hok
      obtain ⟨_, hdec, hok⟩ := bind_eq_ok.mp hok
      obtain ⟨-, rfl⟩ := decodeRow_eq_some.mp (orError_eq_ok.mp hdec)
      split_ifs at hok with hclaim
      · cases hok
        exact .ack (orError_eq_ok.mp hget) hclaim.1 hclaim.2
      · cases hok
        exact .idle
  | appendDecision f a k n t =>
    cases hok : s.appendDecision f a k n t with
    | error err => exact .idle
    | ok p =>
      obtain ⟨_, -, hok⟩ := bind_eq_ok.mp hok
      obtain ⟨_, -, hok⟩ := bind_eq_ok.mp hok
      cases hok
      exact .idle
  | markRunning => exact absurd ⟨rfl, rfl, by rintro ⟨f, hf⟩; cases hf⟩ hquiet
  | reconcile => exact absurd ⟨rfl, rfl, by rintro ⟨f, hf | hf⟩ <;> cases hf⟩ hquiet
  | _ =>
    exact absurd ⟨rfl, rfl, by simp [Op.Touches, genesisLabel, replanLabel, grantLabel]⟩ hquiet

/-! ## Events without their claims -/

/-- The event without its claim, its sequence and its schema stamp. -/
def OutboxEvent.body (ev : OutboxEvent) : OutboxEvent :=
  { ev with
    schemaVersion := 0, sequence := 0, claimedBy := none, claimToken := none,
    claimExpiresAt := none, acked := false }

theorem OutboxEvent.body_stamped (ev : OutboxEvent) (seq : UInt64) :
    (ev.stamped seq).body = ev.body := rfl

variable {app : Option OutboxEvent} {cl : Option Claim}

theorem OutboxStep.sum_le (hs : OutboxStep t app cl t') (g : OutboxEvent → ℕ) :
    t'.sum (fun ev => g ev.body) ≤
      t.sum (fun ev => g ev.body) + app.elim 0 fun ev => g ev.body := by
  -- a rewritten claim keeps the body, so it keeps the count
  have hrewrite : ∀ (k : String) (ev ev' : OutboxEvent), t.get k = some ev → ev'.body = ev.body →
      (t.insert k ev').sum (fun ev => g ev.body) ≤ t.sum fun ev => g ev.body := by
    intro k ev ev' hget hbody
    have hsum := Table.sum_insert_old (fun ev => g ev.body) ev' hget
    rw [hbody] at hsum
    omega
  cases hs with
  | idle => exact Nat.le_add_right ..
  | append hnext =>
    rename_i ev seq
    have hsum := t.sum_insert (fun ev => g ev.body) (outboxKey seq) (ev.stamped seq)
    simp only [OutboxEvent.body_stamped] at hsum
    simp only [Option.elim_some]
    omega
  | claim _ _ hfind =>
    have hmem := List.mem_of_find?_eq_some hfind
    exact (hrewrite _ _ _ (Table.mem_entries.mp hmem) (by rfl)).trans (Nat.le_add_right ..)
  | ack hget _ _ => exact (hrewrite _ _ _ hget (by rfl)).trans (Nat.le_add_right ..)

/-- Every event after a step was there under its key, up to its claim, or was appended. -/
theorem OutboxStep.mem
    (hs : OutboxStep t app cl t') : ∀ (k : String) (ev : OutboxEvent), t'.get k = some ev →
      (∃ ev₀, t.get k = some ev₀ ∧ ev₀.body = ev.body) ∨
        ∃ ev₀, app = some ev₀ ∧ ev₀.body = ev.body := by
  cases hs with
  | idle => exact fun k ev hev => .inl ⟨ev, hev, rfl⟩
  | append hnext =>
    refine Table.forall_insert (fun k ev _ hev => .inl ⟨ev, hev, rfl⟩) ?_
    exact .inr ⟨_, rfl, rfl⟩
  | claim _ _ hfind =>
    have hmem := Table.mem_entries.mp (List.mem_of_find?_eq_some hfind)
    refine Table.forall_insert (fun k ev _ hev => .inl ⟨ev, hev, rfl⟩) ?_
    exact .inl ⟨_, hmem, rfl⟩
  | ack hget _ _ =>
    refine Table.forall_insert (fun k ev _ hev => .inl ⟨ev, hev, rfl⟩) ?_
    exact .inl ⟨_, hget, rfl⟩

end Octos.Fleet
