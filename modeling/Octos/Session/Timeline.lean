import Octos.Agent.Messages
import Octos.Base.Numbered

/-!
# Session timelines

`octos-bus/src/session.rs` and `resume_policy.rs`: the rows of a session file are messages and
rollback markers. Folding them replays each marker at its place: it drops the last user turns
accumulated so far, a turn being all the rows of one thread.
-/

namespace Octos.Session

open Octos.Agent List

/-! ## Thread ids -/

/-- Every row that belongs to a turn names its thread. -/
def Stamped (m : Message) : Prop := m.role = .system ∨ m.threadId.isSome

/-- The loop of `synthesize_thread_ids`, from row `seq` on. -/
def synthesizeFrom : ℕ → Option String → List Message → List Message
  | _, _, [] => []
  | seq, currentThread, m :: rest =>
    if m.threadId.isSome then
      let current := if m.role = .user ∨ m.role = .assistant then m.threadId else currentThread
      m :: synthesizeFrom (seq + 1) current rest
    else
      match m.role with
      | .system => m :: synthesizeFrom (seq + 1) currentThread rest
      | .user =>
        let id := m.clientMessageId.getD ("synth_" ++ toString seq)
        { m with threadId := some id } :: synthesizeFrom (seq + 1) (some id) rest
      | .assistant =>
        let id := currentThread.getD ("synth_" ++ toString seq)
        { m with threadId := some id } :: synthesizeFrom (seq + 1) (some id) rest
      | .tool =>
        let id := currentThread.getD ("synth_" ++ toString seq)
        { m with threadId := some id } :: synthesizeFrom (seq + 1) (some id) rest

def synthesizeThreadIds (messages : List Message) : List Message := synthesizeFrom 0 none messages

variable {messages sealed active : List Message}

theorem synthesizeFrom_of_stamped (h : ∀ m ∈ messages, Stamped m) (seq : ℕ)
    (current : Option String) : synthesizeFrom seq current messages = messages := by
  induction messages generalizing seq current with
  | nil => rfl
  | cons m rest ih =>
    have hrest := ih fun m' hm' => h m' (mem_cons_of_mem _ hm')
    rw [synthesizeFrom]
    rcases h m mem_cons_self with hrole | hsome
    · simp [hrole, hrest]
    · rw [if_pos hsome]
      exact congrArg (m :: ·) (hrest ..)

theorem synthesizeThreadIds_of_stamped (h : ∀ m ∈ messages, Stamped m) :
    synthesizeThreadIds messages = messages :=
  synthesizeFrom_of_stamped h 0 none

theorem stamped_synthesizeFrom (seq : ℕ) (current : Option String) (messages : List Message) :
    ∀ m ∈ synthesizeFrom seq current messages, Stamped m := by
  induction messages generalizing seq current with
  | nil => simp [synthesizeFrom]
  | cons m rest ih =>
    rw [synthesizeFrom]
    by_cases hsome : m.threadId.isSome = true
    · rw [if_pos hsome]
      exact forall_mem_cons.mpr ⟨.inr hsome, ih _ _⟩
    · rw [if_neg hsome]
      split
      next hrole => exact forall_mem_cons.mpr ⟨.inl hrole, ih _ _⟩
      all_goals exact forall_mem_cons.mpr ⟨.inr rfl, ih _ _⟩

section

variable (messages : List Message)

theorem stamped_synthesizeThreadIds : ∀ m ∈ synthesizeThreadIds messages, Stamped m :=
  stamped_synthesizeFrom 0 none messages

/-! ## User turns -/

def userThread (m : Message) : Option String := if m.role = .user then m.threadId else none

/-- Note the thread of a user message, once. -/
def noteThread (threads : List String) (m : Message) : List String :=
  match userThread m with
  | some tid => if tid ∈ threads then threads else threads ++ [tid]
  | none => threads

/-- The distinct threads rooted by user messages, in order. -/
def userThreads : List String := messages.foldl noteThread []

def countUserTurns : ℕ := (userThreads messages).length

/-- The row belongs to one of the threads. -/
def inThreads (threads : List String) (m : Message) : Bool := m.threadId.any (· ∈ threads)

/-- `drop_last_n_user_turns`, with the number of turns dropped. -/
def dropLastNUserTurns (n : ℕ) (messages : List Message) : List Message × ℕ :=
  if n = 0 then (messages, 0)
  else
    let threads := userThreads messages
    let dropCount := min n threads.length
    if dropCount = 0 then (messages, 0)
    else
      let toDrop := threads.drop (threads.length - dropCount)
      (messages.filter fun m => !inThreads toDrop m, dropCount)

theorem dropLastNUserTurns_fst (n : ℕ) (messages : List Message) :
    (dropLastNUserTurns n messages).1 =
      messages.filter fun m => !inThreads (keepLast n (userThreads messages)) m := by
  have hnone : messages = messages.filter fun m => !inThreads [] m := by
    simp [inThreads]
  rw [dropLastNUserTurns]
  dsimp only
  split_ifs with hn hcount
  · rw [hn, keepLast, Nat.sub_zero, drop_length]
    exact hnone
  · rw [keepLast, show (userThreads messages).length - n = (userThreads messages).length by omega,
      drop_length]
    exact hnone
  · rw [keepLast, show (userThreads messages).length - min n (userThreads messages).length =
      (userThreads messages).length - n by omega]

theorem userThreads_concat (m : Message) :
    userThreads (messages ++ [m]) = noteThread (userThreads messages) m := by
  rw [userThreads, foldl_append, ← userThreads]
  rfl

end

theorem exists_of_mem_userThreads {tid : String} (h : tid ∈ userThreads messages) :
    ∃ m ∈ messages, m.threadId = some tid := by
  induction messages using List.reverseRecOn with
  | nil => cases h
  | append_singleton messages m ih =>
    have hold : tid ∈ userThreads messages → ∃ m' ∈ messages ++ [m], m'.threadId = some tid := by
      intro hmem
      obtain ⟨m', hm', htid⟩ := ih hmem
      exact ⟨m', mem_append_left _ hm', htid⟩
    rw [userThreads_concat, noteThread] at h
    split at h
    next t ht =>
      split_ifs at h
      · exact hold h
      · rcases mem_append.mp h with h | h
        · exact hold h
        · refine ⟨m, mem_append_right _ mem_cons_self, ?_⟩
          rw [mem_singleton.mp h]
          rw [userThread] at ht
          split_ifs at ht
          exact ht
    · exact hold h

/-- The turns of a transcript in two parts: those of the first, then the new ones of the second. -/
theorem userThreads_append (first second : List Message) :
    userThreads (first ++ second) =
      userThreads first ++ (userThreads second).filter (· ∉ userThreads first) := by
  induction second using List.reverseRecOn with
  | nil => simp [userThreads]
  | append_singleton second m ih =>
    rw [← append_assoc, userThreads_concat, userThreads_concat, ih, noteThread, noteThread]
    cases userThread m with
    | none => rfl
    | some tid =>
      dsimp only
      by_cases hfirst : tid ∈ userThreads first
      · rw [if_pos (mem_append_left _ hfirst)]
        split_ifs with hsecond
        · rfl
        · simp [hfirst]
      · by_cases hsecond : tid ∈ userThreads second
        · rw [if_pos hsecond, if_pos]
          exact mem_append_right _ (mem_filter.mpr ⟨hsecond, by simpa using hfirst⟩)
        · rw [if_neg hsecond, if_neg, filter_append, filter_singleton,
            append_assoc]
          · simp [hfirst]
          · simp [hfirst, hsecond]

/-! ## Rollbacks that stay within the later part -/

/-- A rollback of `n` turns concerns `active` alone: the last `n` user threads of `active` have no
row in `sealed`, and when `active` has fewer of them there are none in `sealed`. -/
def Local (n : ℕ) (sealed active : List Message) : Prop :=
  (∀ m ∈ sealed, inThreads (keepLast n (userThreads active)) m = false) ∧
    (countUserTurns active < n → userThreads sealed = [])

instance decidableLocal (n : ℕ) (sealed active : List Message) :
    Decidable (Local n sealed active) :=
  inferInstanceAs (Decidable (_ ∧ _))

variable {n : ℕ}

/-- A local rollback concerns only the end of any transcript whose rows before it are sealed
ones. -/
theorem Local.mono {part : List Message} (h : Local n sealed active) (hpart : part ⊆ sealed)
    (hthreads : userThreads sealed = [] → userThreads part = []) : Local n part active :=
  ⟨fun m hm => h.1 m (hpart hm), fun hshort => hthreads (h.2 hshort)⟩

theorem keepLast_userThreads_append (h : Local n sealed active) :
    keepLast n (userThreads (sealed ++ active)) = keepLast n (userThreads active) := by
  rw [userThreads_append]
  rcases Nat.lt_or_ge (userThreads active).length n with hshort | hlong
  · rw [h.2 hshort]
    simp
  · -- the last `n` threads of `active` are new, so they are the last `n` of the whole
    obtain ⟨front, hfront⟩ := keepLast_suffix n (userThreads active)
    have hlen : (keepLast n (userThreads active)).length = n := by
      rw [length_keepLast, Nat.min_eq_left hlong]
    have hnew : (keepLast n (userThreads active)).filter (· ∉ userThreads sealed) =
        keepLast n (userThreads active) := by
      refine filter_eq_self.mpr fun tid htid => ?_
      refine decide_eq_true fun hmem => ?_
      obtain ⟨m, hm, hthread⟩ := exists_of_mem_userThreads hmem
      have hout := h.1 m hm
      rw [inThreads, hthread] at hout
      simp [htid] at hout
    generalize keepLast n (userThreads active) = last at hfront hlen hnew
    rw [← hfront, filter_append, hnew, ← append_assoc, keepLast, length_append, hlen,
      Nat.add_sub_cancel, drop_left]

/-- **A local rollback** leaves what comes before alone. -/
theorem dropLastNUserTurns_append (h : Local n sealed active) :
    (dropLastNUserTurns n (sealed ++ active)).1 = sealed ++ (dropLastNUserTurns n active).1 := by
  rw [dropLastNUserTurns_fst, dropLastNUserTurns_fst, keepLast_userThreads_append h,
    filter_append, filter_eq_self.mpr fun m hm => by rw [h.1 m hm]; rfl]

/-! ## Folding -/

/-- The time of a marker is not read. -/
inductive SessionTimelineItem
  | message (message : Message)
  | rollback (numTurns : ℕ)

/-- A row names its thread when it is a message of a turn. -/
def SessionTimelineItem.Stamped : SessionTimelineItem → Prop
  | .message m => Session.Stamped m
  | .rollback _ => True

/-- One item of the fold, with whether a marker asked for more turns than there were. -/
def foldItem (acc : List Message × Bool) : SessionTimelineItem → List Message × Bool
  | .message m => (acc.1 ++ [m], acc.2)
  | .rollback numTurns =>
    let dropped := dropLastNUserTurns numTurns (synthesizeThreadIds acc.1)
    (dropped.1, acc.2 || dropped.2 < numTurns)

variable (timeline : List SessionTimelineItem)

def foldSessionTimelineTrackingSpill : List Message × Bool :=
  let folded := timeline.foldl foldItem ([], false)
  (synthesizeThreadIds folded.1, folded.2)

def foldSessionTimeline : List Message :=
  (foldSessionTimelineTrackingSpill timeline).1

theorem stamped_fold : ∀ m ∈ foldSessionTimeline timeline, Stamped m :=
  stamped_synthesizeThreadIds _

@[simp] theorem fold_nil : foldSessionTimeline [] = [] := rfl

variable {timeline : List SessionTimelineItem} (h : ∀ item ∈ timeline, item.Stamped)
include h

theorem stamped_foldl {acc : List Message × Bool}
    (hacc : ∀ m ∈ acc.1, Stamped m) : ∀ m ∈ (timeline.foldl foldItem acc).1, Stamped m := by
  induction timeline generalizing acc with
  | nil => exact hacc
  | cons item timeline ih =>
    refine ih (fun i hi => h i (mem_cons_of_mem _ hi)) ?_
    cases item with
    | message m =>
      have hm : Stamped m := h _ mem_cons_self
      exact forall_mem_append.mpr ⟨hacc, forall_mem_singleton.mpr hm⟩
    | rollback =>
      intro m hm
      rw [foldItem, dropLastNUserTurns_fst] at hm
      exact stamped_synthesizeThreadIds _ m (mem_of_mem_filter hm)

theorem fold_eq_foldl :
    foldSessionTimeline timeline = (timeline.foldl foldItem ([], false)).1 :=
  synthesizeThreadIds_of_stamped (stamped_foldl h (by simp))

theorem fold_concat_message {m : Message} (hm : Stamped m) :
    foldSessionTimeline (timeline ++ [.message m]) = foldSessionTimeline timeline ++ [m] := by
  have hall : ∀ item ∈ timeline ++ [.message m], item.Stamped :=
    forall_mem_append.mpr ⟨h, forall_mem_singleton.mpr hm⟩
  rw [fold_eq_foldl hall, fold_eq_foldl h, foldl_append]
  rfl

theorem fold_concat_rollback (n : ℕ) :
    foldSessionTimeline (timeline ++ [.rollback n]) =
      (dropLastNUserTurns n (foldSessionTimeline timeline)).1 := by
  have hall : ∀ item ∈ timeline ++ [.rollback n], item.Stamped :=
    forall_mem_append.mpr ⟨h, forall_mem_singleton.mpr trivial⟩
  rw [fold_eq_foldl hall, fold_eq_foldl h, foldl_append, foldl_cons, foldl_nil,
    foldItem, synthesizeThreadIds_of_stamped (stamped_foldl h (by simp))]

theorem fold_append_messages (hmessages : ∀ m ∈ messages, Stamped m) :
    foldSessionTimeline (timeline ++ messages.map .message) =
      foldSessionTimeline timeline ++ messages := by
  induction messages using List.reverseRecOn with
  | nil => simp
  | append_singleton messages m ih =>
    obtain ⟨hinit, hlast⟩ := forall_mem_append.mp hmessages
    have hall : ∀ item ∈ timeline ++ messages.map .message, item.Stamped := by
      refine forall_mem_append.mpr ⟨h, ?_⟩
      rintro _ hitem
      obtain ⟨m', hm', rfl⟩ := mem_map.mp hitem
      exact hinit m' hm'
    rw [map_append, map_singleton, ← append_assoc,
      fold_concat_message hall (hlast m mem_cons_self), ih hinit, append_assoc]

end Octos.Session
