import Octos.Tasks.Task

/-!
# Failure signals

`octos-agent/src/task_supervisor.rs`: the signal that a failed task owes its listener, and the books
that are kept behind one lock on which tool calls have been acknowledged, which signals wait for an
acknowledgement and which tasks have been signalled. Both books are bounded and drop their oldest
entry.

The alternatives in a signal are read off the error text behind the marker `available:`, which is
looked for in the lowercased text; its place there is then used to cut the text itself.
-/

namespace Octos.Tasks

open List

/-! ## Alternatives in an error text -/

/-- `str::to_lowercase`, of which only its value on ASCII text is used. -/
structure Lowercase where
  apply : List Char → List Char
  ascii : ∀ l : List Char, (∀ c ∈ l, c.toNat < 128) → apply l = l.map Char.toLower

/-- ASCII letters in lower case, and the dotted capital I, which has a lower case of two characters;
all other characters as they are. -/
def dottedLowercase : Lowercase where
  apply l := l.flatMap fun c => if c.toNat = 0x130 then ['i', Char.ofNat 0x307] else [c.toLower]
  ascii l h := by
    rw [map_eq_flatMap]
    refine flatMap_congr fun c hc => if_neg fun hdotted => ?_
    have hlt := h c hc
    omega

/-- What stands before the alternatives. -/
def availableMarker : List Char := "available:".toList

variable (lower : Lowercase)

/-- The byte behind the first marker of the lowercased text. -/
def markerEnd (text : List Char) : Option ℕ :=
  (splitFirst availableMarker (lower.apply text)).map fun parts =>
    utf8Len parts.1 + utf8Len availableMarker

def isQuote (c : Char) : Bool := c.toNat = 34 || c.toNat = 39

/-- The items of the clause at the start of a text. -/
def alternativesOf (tail : List Char) : List String :=
  let clause := tail.takeWhile fun c => !(['\n', '.', ';'].contains c)
  let items :=
    (clause.splitOn ',').map fun item => ((trim item).dropWhile isQuote).rdropWhile isQuote
  (items.filter fun item => !item.isEmpty).map String.ofList

/-- `parse_alternatives`. The place of the marker in the lowercased text is where the text is cut,
which panics when no character of the text begins there. -/
def parseAlternatives (text : String) : Option (List String) :=
  match markerEnd lower text.toList with
  | none => some []
  | some n => (dropBytes n text.toList).map alternativesOf

/-- The text can be cut at the byte where its lowercase form has the end of the marker. -/
def Readable (text : String) : Prop :=
  (markerEnd lower text.toList).all (fun n => (dropBytes n text.toList).isSome) = true

instance decidableReadable (text : String) : Decidable (Readable lower text) :=
  inferInstanceAs (Decidable (_ = true))

variable {text : String}

theorem isSome_parseAlternatives {lower : Lowercase} :
    (∃ alternatives, parseAlternatives lower text = some alternatives) ↔ Readable lower text := by
  rw [parseAlternatives, Readable]
  cases hend : markerEnd lower text.toList with
  | none => exact ⟨fun _ => rfl, fun _ => ⟨[], rfl⟩⟩
  | some n =>
    cases hdrop : dropBytes n text.toList with
    | none | some tail => simp [hdrop]

theorem readable_of_ascii (hascii : text.toList.all (fun c => c.toNat < 128) = true)
    (hmarker : splitFirst availableMarker (text.toList.map Char.toLower) = none) :
    Readable lower text := by
  have hlower := lower.ascii text.toList fun c hc => of_decide_eq_true (all_eq_true.mp hascii c hc)
  rw [Readable, markerEnd, hlower, hmarker]
  rfl

/-! ## The books -/

structure SpawnOnlyFailureSignal where
  taskId : TaskId
  toolName : String
  toolInput : Json
  errorMessage : String
  suggestedAlternatives : List String
  parentSessionKey : Option String
  originatingClientMessageId : Option String

structure PendingFailure where
  toolCallId : String
  signal : SpawnOnlyFailureSignal

/-- `AckAndPending`, without the part that is about the other callback. -/
structure AckAndPending where
  synthAckEmittedToolCallIds : List String
  pending : List (TaskId × PendingFailure)
  pendingInsertionOrder : List TaskId
  emittedTaskIds : List TaskId
  emittedInsertionOrder : List TaskId

def maxPendingFailures : ℕ := 256

def maxFailureSignalEmittedIds : ℕ := 1024

namespace AckAndPending

/-- Nothing is acknowledged, pending or signalled. -/
def empty : AckAndPending := ⟨[], [], [], [], []⟩

/-- The oldest entry that is still pending is dropped; the queue before it is stale. -/
def evictOldest (pending : List (TaskId × PendingFailure)) :
    List TaskId → List (TaskId × PendingFailure) × List TaskId
  | [] => (pending, [])
  | id :: order =>
    if pending.any (·.1 == id) then (pending.filter (·.1 != id), order)
    else evictOldest pending order

variable (books : AckAndPending)

def insertPending (id : TaskId) (failure : PendingFailure) : AckAndPending :=
  if books.pending.any (·.1 == id) then
    { books with
      pending := books.pending.map fun entry => if entry.1 = id then (id, failure) else entry }
  else
    let room :=
      if maxPendingFailures ≤ books.pending.length then
        evictOldest books.pending books.pendingInsertionOrder
      else (books.pending, books.pendingInsertionOrder)
    { books with
      pending := room.1 ++ [(id, failure)]
      pendingInsertionOrder := room.2 ++ [id] }

/-- `remove_pending`; `forget_pending_in_order` drops the first occurrence in the queue. -/
def removePending (id : TaskId) : AckAndPending :=
  if books.pending.any (·.1 == id) then
    { books with
      pending := books.pending.filter (·.1 != id)
      pendingInsertionOrder := books.pendingInsertionOrder.erase id }
  else books

/-- The failures of a tool call, and the books without them. -/
def drainPendingForToolCall (toolCallId : String) :
    List (TaskId × PendingFailure) × AckAndPending :=
  let hits := books.pending.filter (·.2.toolCallId = toolCallId)
  (hits, { books with
    pending := books.pending.filter (·.2.toolCallId ≠ toolCallId)
    pendingInsertionOrder :=
      hits.foldl (fun order entry => order.erase entry.1) books.pendingInsertionOrder })

/-- The ids beyond the bound are dropped, oldest first. -/
def evictEmitted : List TaskId → List TaskId → List TaskId × List TaskId
  | emitted, [] => (emitted, [])
  | emitted, id :: order =>
    if maxFailureSignalEmittedIds < emitted.length then evictEmitted (emitted.erase id) order
    else (emitted, id :: order)

/-- Whether the task had not been signalled, and the books with it. -/
def markEmitted (id : TaskId) : Bool × AckAndPending :=
  if books.emittedTaskIds.contains id then (false, books)
  else
    let kept := evictEmitted (books.emittedTaskIds ++ [id]) (books.emittedInsertionOrder ++ [id])
    (true, { books with emittedTaskIds := kept.1, emittedInsertionOrder := kept.2 })

/-! ### What the operations keep -/

section

variable (books : AckAndPending) (id : TaskId) (failure : PendingFailure)

theorem insertPending_cases (hroom : books.pending.length < maxPendingFailures) :
    (books.insertPending id failure).pending = books.pending ++ [(id, failure)] ∨
    ((books.insertPending id failure).pending =
        books.pending.map (fun entry => if entry.1 = id then (id, failure) else entry) ∧
      ∃ entry ∈ books.pending, entry.1 = id) := by
  rw [insertPending]
  split_ifs with hany hfull
  · obtain ⟨entry, hentry, hid⟩ := any_eq_true.mp hany
    exact .inr ⟨rfl, entry, hentry, beq_iff_eq.mp hid⟩
  · exact absurd hroom (not_lt.mpr hfull)
  · exact .inl rfl

theorem insertPending_books :
    (books.insertPending id failure).synthAckEmittedToolCallIds = books.synthAckEmittedToolCallIds ∧
      (books.insertPending id failure).emittedTaskIds = books.emittedTaskIds := by
  rw [insertPending]
  split_ifs <;> exact ⟨rfl, rfl⟩

variable {books id failure} (hroom : books.pending.length < maxPendingFailures)
include hroom

theorem mem_insertPending {entry : TaskId × PendingFailure}
    (h : entry ∈ (books.insertPending id failure).pending) :
    entry ∈ books.pending ∨ entry = (id, failure) := by
  rcases insertPending_cases books id failure hroom with hpending | ⟨hpending, -⟩
  · rw [hpending, mem_append, mem_singleton] at h
    exact h
  · rw [hpending] at h
    obtain ⟨old, hold, rfl⟩ := mem_map.mp h
    split_ifs
    · exact .inr rfl
    · exact .inl hold

theorem length_insertPending_le :
    (books.insertPending id failure).pending.length ≤ books.pending.length + 1 := by
  rcases insertPending_cases books id failure hroom with hpending | ⟨hpending, -⟩
  · rw [hpending, length_append, length_singleton]
  · rw [hpending, length_map]
    exact Nat.le_succ _

theorem countP_insertPending {k : TaskId} (hnone : k = id → books.pending.countP (·.1 == k) = 0) :
    (books.insertPending id failure).pending.countP (·.1 == k) =
      books.pending.countP (·.1 == k) + if k = id then 1 else 0 := by
  rcases insertPending_cases books id failure hroom with hpending | ⟨hpending, entry, hentry, hid⟩
  · rw [hpending, countP_append, countP_singleton]
    simp [@eq_comm _ k id]
  · have hne : k ≠ id := fun hk => by
      have hzero := countP_eq_zero.mp (hnone hk) entry hentry
      exact hzero (beq_iff_eq.mpr (hid.trans hk.symm))
    rw [hpending, countP_map, if_neg hne, Nat.add_zero]
    refine countP_congr fun entry _ => ?_
    dsimp only [Function.comp_apply]
    split_ifs with hid
    · simp [hid]
    · rfl

end

section

variable (books : AckAndPending) {id k : TaskId}

theorem countP_removePending (hk : k ≠ id) :
    (books.removePending id).pending.countP (·.1 == k) = books.pending.countP (·.1 == k) := by
  rw [removePending]
  split_ifs
  · rw [countP_filter]
    refine countP_congr fun entry _ => ?_
    simp only [Bool.and_eq_true, beq_iff_eq, bne_iff_ne, and_iff_left_iff_imp]
    exact fun hentry => hentry ▸ hk
  · rfl

theorem removePending_books (id : TaskId) :
    (books.removePending id).synthAckEmittedToolCallIds = books.synthAckEmittedToolCallIds ∧
      (books.removePending id).emittedTaskIds = books.emittedTaskIds := by
  rw [removePending]
  split_ifs <;> exact ⟨rfl, rfl⟩

theorem removePending_sublist (id : TaskId) :
    (books.removePending id).pending.Sublist books.pending := by
  rw [removePending]
  split_ifs
  · exact filter_sublist
  · exact List.Sublist.refl _

theorem countP_drainPendingForToolCall (toolCallId : String) (k : TaskId) :
    (books.drainPendingForToolCall toolCallId).1.countP (·.1 == k) +
        (books.drainPendingForToolCall toolCallId).2.pending.countP (·.1 == k) =
      books.pending.countP (·.1 == k) := by
  rw [countP_eq_countP_filter_add books.pending _ (·.2.toolCallId = toolCallId)]
  simp [drainPendingForToolCall]

theorem mem_evictEmitted {emitted order : List TaskId} (h : id ∈ (evictEmitted emitted order).1) :
    id ∈ emitted := by
  induction order generalizing emitted with
  | nil => exact h
  | cons _ _ ih =>
    rw [evictEmitted] at h
    split_ifs at h
    · exact mem_of_mem_erase (ih h)
    · exact h

theorem mem_markEmitted (h : k ∈ (books.markEmitted id).2.emittedTaskIds) :
    k ∈ books.emittedTaskIds ∨ k = id := by
  rw [markEmitted] at h
  split_ifs at h
  · exact .inl h
  · simpa using mem_evictEmitted h

theorem markEmitted_fst : (books.markEmitted id).1 = !books.emittedTaskIds.contains id := by
  rw [markEmitted]
  split_ifs with hemitted
  · rw [hemitted]
    rfl
  · rw [Bool.not_eq_true] at hemitted
    rw [hemitted]
    rfl

theorem markEmitted_books (id : TaskId) :
    (books.markEmitted id).2.synthAckEmittedToolCallIds = books.synthAckEmittedToolCallIds ∧
      (books.markEmitted id).2.pending = books.pending := by
  rw [markEmitted]
  split_ifs <;> exact ⟨rfl, rfl⟩

end

end AckAndPending

end Octos.Tasks
