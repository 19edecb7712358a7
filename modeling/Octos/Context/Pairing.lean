import Octos.Context.Blocks
import Mathlib.Data.List.Flatten
import Mathlib.Data.List.Forall2

/-!
# Tool rows of a prompt

Every assistant message with tool calls is directly followed by one tool row for each call, in their
order, and there are no other tool rows. A recorded output is shown once at most. It is shown under
the message that holds the last call with its id before it: outputs are given to the calls of one
message in their order, so that, where an id is used twice in a message, the call itself need not be
the last one (`repeated_id_shows_first_output`).

## Main results

* `forPrompt_framed`: every prompt is framed, and shows each output once at most
-/

namespace Octos.Context

open Builder (toolRow)
open Context.Entry List Option TranscriptItem

open Agent (Message MessageRole ToolCall)
open Block (flat)

variable (items : List TranscriptItem)

def lastCallBefore (id callId : String) : Option String :=
  ((items.takeWhile fun item => item.id != id).reverse.find? fun item =>
    item.callId? == some callId).map
    TranscriptItem.id

/-- How the row of a call is made of the output found for it. -/
abbrev RowMaker := String → Option (TranscriptItem × ToolOutputEnvelope) → Entry

/-- A tool row for a call of the message `head`: the placeholder, or the row of an output with the
id of the call, where the last call with that id before the output is part of the message. -/
structure ShownRow (make : RowMaker) (items : List TranscriptItem) (head : Entry) (call : ToolCall)
    (row : Entry) : Prop where
  role : row.message.role = .tool
  toolCallId : row.message.toolCallId = some call.id
  shown : row = make call.id none ∨ ∃ output ∈ items, ∃ envelope,
    output.output? = some envelope ∧ envelope.toolCallId = call.id ∧
      row = make call.id (some (output, envelope)) ∧
      ∃ last, lastCallBefore items output.id call.id = some last ∧ .item last ∈ head.sourceItemIds

/-- The messages are such without calls, which are no tool rows, and assistant messages with calls,
which are directly followed by a row for each call. -/
inductive Framed (make : RowMaker) (items : List TranscriptItem) : List Entry → Prop
  | nil : Framed make items []
  | single (entry : Entry) (entries : List Entry) (hrole : entry.message.role ≠ .tool)
      (hcalls : entry.message.toolCalls = none) (hrest : Framed make items entries) :
      Framed make items (entry :: entries)
  | calls (head : Entry) (calls : List ToolCall) (rows entries : List Entry)
      (hrole : head.message.role = .assistant) (hcalls : head.message.toolCalls = some calls)
      (hrows : List.Forall₂ (ShownRow make items head) calls rows)
      (hrest : Framed make items entries) :
      Framed make items (head :: rows ++ entries)

/-- The recorded outputs that are shown. -/
def shownIds (entries : List Entry) : List String :=
  entries.flatMap fun entry =>
    if entry.isRow then entry.sourceItemIds.filterMap fun id =>
      match id with
      | .item id => some id
      | .synthetic _ => none
    else []

theorem shownIds_append (entries entries' : List Entry) :
    shownIds (entries ++ entries') = shownIds entries ++ shownIds entries' := flatMap_append

/-! ## Rows alone -/

/-- The message of a row alone. -/
structure SingleEntry (entry : Entry) : Prop where
  notRow : entry.isRow = false
  calls : entry.message.toolCalls = none
  output : entry.toolOutputCallId = none

namespace Builder

/-- The row is not among those that were left out, and it is not reasoning that waits for its
message. -/
def Quiet (b : Builder) (id : String) : Prop :=
  SourceId.item id ∉ b.dropped ∧ ∀ pending ∈ b.pendingReasoning, pending.2 ≠ id

/-- What a row alone adds: messages that are no tool rows, made of the row and of the reasoning
before it. -/
structure Adds (item : TranscriptItem) (b b' : Builder) (new : List Entry) : Prop where
  entries : b'.entries = b.entries ++ new
  consumed : b'.consumed = b.consumed
  single : ∀ entry ∈ new, SingleEntry entry
  requests : new.any Entry.isRequest = (item.isUserInput || item.isContextEvent)
  quiet : ∀ id, id ≠ item.id → b.Quiet id →
    b'.Quiet id ∧ ∀ entry ∈ new, SourceId.item id ∉ entry.sourceItemIds

section

variable {E : Surroundings} {policy : PromptBuildPolicy} {b b' : Builder} {item : TranscriptItem}
  {m : Message}
  {isProtected : Bool} {repaired : List SourceId}

theorem Adds.message (hrole : m.role ≠ .tool) (hcalls : m.toolCalls = none)
    (hrequest : (!isProtected && m.role == .user) = (item.isUserInput || item.isContextEvent)) :
    Adds item b { b.pushMessage item m isProtected with repaired }
      [⟨m, [.item item.id], isProtected, [], none⟩] where
  entries := rfl
  consumed := rfl
  single := forall_mem_singleton.mpr ⟨beq_eq_false_iff_ne.mpr hrole, hcalls, rfl⟩
  requests := by rw [← hrequest, any_cons, any_nil, Bool.or_false, isRequest]
  quiet := by
    intro id hid hquiet
    refine ⟨hquiet, forall_mem_singleton.mpr fun h => hid ?_⟩
    simpa using h

theorem Adds.nothing (hentries : b'.entries = b.entries) (hconsumed : b'.consumed = b.consumed)
    (hdropped : b'.dropped = b.dropped ∨ b'.dropped = b.dropped ++ [.item item.id])
    (hpending : ∀ pending ∈ b'.pendingReasoning, pending ∈ b.pendingReasoning ∨ pending.2 = item.id)
    (hrequest : (item.isUserInput || item.isContextEvent) = false) : Adds item b b' [] where
  entries := by rw [hentries, append_nil]
  consumed := hconsumed
  single := forall_mem_nil _
  requests := hrequest.symm
  quiet := by
    intro id hid hquiet
    refine ⟨⟨?_, fun pending h => ?_⟩, forall_mem_nil _⟩
    · rcases hdropped with h | h
      · exact h ▸ hquiet.1
      · simpa [h, hid] using hquiet.1
    · rcases hpending pending h with h | h
      exacts [hquiet.2 pending h, h ▸ hid.symm]

/-- **What a row alone does.** -/
theorem pushItem_adds (b : Builder) (item : TranscriptItem) (next : Option TranscriptItem) :
    ∃ new, Adds item b (b.pushItem E policy item next) new := by
  obtain ⟨id, kind, group⟩ := item
  cases kind with
  | systemInstruction | developerInstruction | userInput | contextInjection | contextEvent |
    childResultSummary | compactionSummary => exact ⟨_, .message nofun rfl rfl⟩
  | assistantFinal =>
    rw [pushItem]
    dsimp only
    split
    next reasoning source hpending =>
      refine ⟨[_], rfl, rfl, forall_mem_singleton.mpr ⟨rfl, rfl, rfl⟩, rfl, fun x hx hquiet => ?_⟩
      refine ⟨⟨hquiet.1, nofun⟩, forall_mem_singleton.mpr ?_⟩
      have hsource : source ≠ x := hquiet.2 _ hpending
      simp [hsource.symm, hx]
    next => exact ⟨_, .message nofun rfl rfl⟩
  | assistantReasoning =>
    rw [pushItem]
    dsimp only
    split_ifs
    · exact ⟨[], .nothing rfl rfl (.inl rfl) (fun _ h => .inr (some.inj h ▸ rfl)) rfl⟩
    · exact ⟨_, .message nofun rfl rfl⟩
    · exact ⟨[], .nothing rfl rfl (.inr rfl) (fun _ => .inl) rfl⟩
  | toolOutput =>
    rw [pushItem]
    dsimp only
    split_ifs
    · exact ⟨[], .nothing rfl rfl (.inl rfl) (fun _ => .inl) rfl⟩
    · exact ⟨[], .nothing rfl rfl (.inr rfl) (fun _ => .inl) rfl⟩
  | assistantToolCall => exact ⟨[], .nothing rfl rfl (.inl rfl) (fun _ => .inl) rfl⟩
  | checkpoint | forkBoundary => exact ⟨[], .nothing rfl rfl (.inr rfl) (fun _ => .inl) rfl⟩

end

/-! ## Batches of calls -/

/-- The outputs shown so far are those that were taken, each once. -/
def Once (b : Builder) : Prop := shownIds b.entries = b.consumed.reverse ∧ b.consumed.Nodup

theorem findOutput_eq_some {b : Builder} {group rest : List TranscriptItem} {callId : String}
    {output : TranscriptItem} {envelope : ToolOutputEnvelope}
    (hgroup : ∀ item ∈ group, item.output? = none)
    (h : b.findOutput group rest callId = some (output, envelope)) :
    output.output? = some envelope ∧ envelope.toolCallId = callId ∧ output.id ∉ b.consumed ∧
      ∃ between after, rest = between ++ output :: after ∧
        ∀ item ∈ between, item.callId? ≠ some callId := by
  obtain ⟨item, hmem, hitem⟩ := exists_of_findSome?_eq_some h
  cases hout : item.output? with
  | none => simp [hout] at hitem
  | some =>
    simp only [hout, ite_none_right_eq_some, some.injEq, Prod.mk.injEq, Bool.and_eq_true,
      beq_iff_eq, Bool.not_eq_true', contains_eq_mem, decide_eq_false_iff_not] at hitem
    obtain ⟨⟨hid, hfresh⟩, rfl, rfl⟩ := hitem
    refine ⟨hout, hid, hfresh, ?_⟩
    rcases mem_append.mp hmem with hmem | hmem
    · rw [hgroup item hmem] at hout
      cases hout
    · obtain ⟨between, after, htake⟩ := append_of_mem hmem
      refine ⟨between, after ++ rest.dropWhile fun item => item.callId? != some callId, ?_,
        fun c hc => ?_⟩
      · rw [← cons_append, ← append_assoc, ← htake, takeWhile_append_dropWhile]
      · have hc' : c ∈ rest.takeWhile fun item => item.callId? != some callId :=
          htake ▸ mem_append_left _ hc
        simpa using mem_takeWhile_imp hc'

end Builder

/-- A batch of calls, with the text after it, in a transcript, and its message. -/
structure Batch (items done group rest : List TranscriptItem) (head : Entry) : Prop where
  nodup : (items.map TranscriptItem.id).Nodup
  split : items = done ++ group ++ rest
  outputs : ∀ item ∈ group, item.output? = none
  sources : ∀ item ∈ group, SourceId.item item.id ∈ head.sourceItemIds

/-- A tool row for a call that stays with it. -/
def RowFor (make : RowMaker) (head : Entry) (call : ToolCall) (row : Entry) : Prop :=
  ShownRow make items head call row ∧ row.answers [call.id] = true

section

variable {items done group rest : List TranscriptItem} {head : Entry} {E : Surroundings}
  {policy : PromptBuildPolicy}

section

variable (h : Batch items done group rest head)
include h

/-- An output behind the batch, and before the next call with its id: the last call with its id is
in the batch. -/
theorem Batch.exists_lastCall {callId : String}
    (hcall : ∃ call ∈ group, call.callId? = some callId) {between after : List TranscriptItem}
    {output : TranscriptItem} (hrest : rest = between ++ output :: after)
    (hbetween : ∀ item ∈ between, item.callId? ≠ some callId) :
    ∃ last, lastCallBefore items output.id callId = some last ∧
      SourceId.item last ∈ head.sourceItemIds := by
  have hsplit : items = (done ++ group ++ between) ++ output :: after := by
    rw [h.split, hrest, append_assoc (done ++ group)]
  have hne : ∀ item ∈ done ++ group ++ between, (item.id != output.id) = true := by
    intro item hitem
    have hnodup := h.nodup
    rw [hsplit, map_append, map_cons] at hnodup
    exact bne_iff_ne.mpr ((nodup_append.mp hnodup).2.2 _ (mem_map_of_mem hitem) _
      mem_cons_self)
  have hbefore : items.takeWhile (fun item => item.id != output.id) = done ++ group ++ between := by
    rw [hsplit, takeWhile_append_of_pos hne, takeWhile_cons, bne_self_eq_false,
      if_neg Bool.false_ne_true, append_nil]
  have hnone : between.reverse.find? (fun item => item.callId? == some callId) = none := by
    rw [find?_eq_none]
    intro item hitem
    simpa using hbetween item (mem_reverse.mp hitem)
  obtain ⟨call, hcall, hid⟩ := hcall
  have hsome : (group.reverse.find? fun item => item.callId? == some callId).isSome = true := by
    rw [find?_isSome]
    exact ⟨call, mem_reverse.mpr hcall, by rw [hid, beq_self_eq_true]⟩
  obtain ⟨last, hlast⟩ := isSome_iff_exists.mp hsome
  refine ⟨last.id, ?_, h.sources last (mem_reverse.mp (mem_of_find?_eq_some hlast))⟩
  rw [lastCallBefore, hbefore, reverse_append, reverse_append, find?_append, hnone,
    none_or, find?_append, hlast, some_or, map_some]

/-- **The tool row of a call.** -/
theorem Batch.pushRow {call : ToolCall}
    (hcall : ∃ item ∈ group, item.callId? = some call.id) (b : Builder) :
    ∃ row, (b.pushRow E policy group rest call.id).entries = b.entries ++ [row] ∧
      RowFor items (toolRow E policy) head call row ∧
        (b.Once → (b.pushRow E policy group rest call.id).Once) ∧
      ∀ id, b.Quiet id → (b.pushRow E policy group rest call.id).Quiet id := by
  rw [Builder.pushRow]
  split
  next output envelope hfound =>
    obtain ⟨hout, hid, hfresh, between, after, hrest, hbetween⟩ :=
      Builder.findOutput_eq_some h.outputs hfound
    have hmem : output ∈ items := by
      rw [h.split, hrest]
      simp
    refine ⟨_, rfl, ⟨⟨rfl, rfl, .inr ⟨output, hmem, envelope, hout, hid, rfl, ?_⟩⟩, ?_⟩,
      fun honce => ?_, fun _ => id⟩
    · exact h.exists_lastCall hcall hrest hbetween
    · simp [answers, toolRow]
    · refine ⟨?_, nodup_cons.mpr ⟨hfresh, honce.2⟩⟩
      rw [reverse_cons, ← honce.1]
      exact shownIds_append ..
  next =>
    refine ⟨_, rfl, ⟨⟨rfl, rfl, .inl rfl⟩, by simp [answers, toolRow]⟩, fun honce => ⟨?_, honce.2⟩,
      fun _ => id⟩
    exact ((shownIds_append ..).trans (append_nil _)).trans honce.1

theorem Batch.pushRows (tools : List ToolCall)
    (htools : ∀ call ∈ tools, ∃ item ∈ group, item.callId? = some call.id) {b b' : Builder}
    (hb' : b' =
      (tools.map ToolCall.id).foldl (fun b callId => b.pushRow E policy group rest callId) b) :
    ∃ rows, b'.entries = b.entries ++ rows ∧
      List.Forall₂ (RowFor items (toolRow E policy) head) tools rows ∧
      (b.Once → b'.Once) ∧ ∀ id, b.Quiet id → b'.Quiet id := by
  induction tools generalizing b with
  | nil => exact ⟨[], by rw [hb', append_nil]; rfl, .nil, fun honce => hb' ▸ honce,
      fun _ hq => hb' ▸ hq⟩
  | cons call tools ih =>
    rw [forall_mem_cons] at htools
    obtain ⟨row, hentries, hrow, honce, hquiet⟩ :=
      @Batch.pushRow items done group rest head E policy h call htools.1 b
    obtain ⟨rows, hentries', hrows, honce', hquiet'⟩ := ih htools.2 hb'
    refine ⟨row :: rows, ?_, .cons hrow hrows, honce' ∘ honce,
      fun id hq => hquiet' id (hquiet id hq)⟩
    rw [hentries', hentries, append_assoc, singleton_append]

end

/-- The message of a batch of calls. -/
structure CallsEntry (head : Entry) (tools : List ToolCall) : Prop where
  role : head.message.role = .assistant
  calls : head.message.toolCalls = some tools
  notProtected : head.isProtected = false
  callIds : head.toolCallIds = tools.map ToolCall.id
  output : head.toolOutputCallId = none

/-- **What a batch of calls adds**: its message, and a row for each call. -/
theorem Builder.pushGroup_adds {calls : List TranscriptItem} {final : Option TranscriptItem}
    (hnodup : (items.map TranscriptItem.id).Nodup)
    (hsplit : items = done ++ (calls ++ final.toList ++ rest))
    (hcalls : ∀ call ∈ calls, call.isToolCall = true)
    (hfinal : ∀ item, final = some item → item.isAssistantFinal = true) (b : Builder) :
    ∃ tools rows, CallsEntry (b.groupEntry E calls final) tools ∧
      (b.pushGroup E policy calls final rest).entries = b.entries ++
        b.groupEntry E calls final :: rows ∧
      List.Forall₂ (RowFor items (toolRow E policy) (b.groupEntry E calls final)) tools rows ∧
      (b.Once → (b.pushGroup E policy calls final rest).Once) ∧
      ∀ id, b.Quiet id → (b.pushGroup E policy calls final rest).Quiet id := by
  have hbatch : Batch items done (calls ++ final.toList) rest (b.groupEntry E calls final) := by
    refine ⟨hnodup, by rw [hsplit, append_assoc done], fun item hitem => ?_, fun item hitem => ?_⟩
    · rcases mem_append.mp hitem with hitem | hitem
      · have hkind := hcalls item hitem
        cases hk : item.kind <;> simp_all [isToolCall, output?]
      · cases hk : item.kind <;> simp_all [isAssistantFinal, output?]
    · rw [Builder.groupEntry, append_assoc, ← map_append]
      exact mem_append_right _ (mem_map_of_mem hitem)
  have htools : ∀ call ∈ calls.filterMap toolCall?, ∃ item ∈ calls ++ final.toList,
      item.callId? = some call.id := by
    intro call hcall
    obtain ⟨item, hitem, htool⟩ := mem_filterMap.mp hcall
    refine ⟨item, mem_append_left _ hitem, ?_⟩
    cases hk : item.kind <;> simp_all [toolCall?, callId?]
    rw [← htool]
  obtain ⟨rows, hentries, hrows, honce, hquiet⟩ := hbatch.pushRows _ htools rfl
  refine ⟨_, rows, ⟨rfl, rfl, rfl, rfl, rfl⟩, ?_, hrows, fun h => honce ?_,
    fun id hq => hquiet id ?_⟩
  · rw [pushGroup, hentries]
    exact append_assoc b.entries [_] rows
  · exact ⟨((shownIds_append ..).trans (append_nil _)).trans h.1, h.2⟩
  · exact ⟨hq.1, by rintro _ ⟨⟩⟩

end

/-! ## Prompts -/

/-- A block of a prompt: a message without calls, or one with calls and their rows. -/
def BlockOk (make : RowMaker) (c : Block Entry.isRow) : Prop :=
  SingleEntry c.head ∧ c.rows = [] ∨
    ∃ calls, CallsEntry c.head calls ∧ List.Forall₂ (RowFor items make c.head) calls c.rows

/-- The messages are blocks, and no output is shown twice. -/
def Paired (make : RowMaker) (entries : List Entry) : Prop :=
  (∃ bs, entries = flat bs ∧ ∀ c ∈ bs, BlockOk items make c) ∧ (shownIds entries).Nodup

section

variable {E : Surroundings} {policy : PromptBuildPolicy} {items : List TranscriptItem}
  {make : RowMaker}
  {bs : List (Block isRow)} {c : Block isRow} {head row : Entry}

theorem RowFor.exists_call {calls : List ToolCall} {rows : List Entry}
    (h : List.Forall₂ (RowFor items make head) calls rows) (hrow : row ∈ rows) :
    ∃ call ∈ calls, RowFor items make head call row := by
  induction h with
  | nil => cases hrow
  | @cons call row' calls rows hfor _ ih =>
    rcases mem_cons.mp hrow with rfl | hrow
    · exact ⟨call, mem_cons_self, hfor⟩
    · obtain ⟨call', hcall, hfor'⟩ := ih hrow
      exact ⟨call', mem_cons_of_mem call hcall, hfor'⟩

theorem BlockOk.shape (h : BlockOk items make c) : Shape c := by
  rcases h with ⟨hhead, hrows⟩ | ⟨calls, hhead, hrows⟩
  · exact ⟨hhead.output, by simp [hrows], fun _ => hrows⟩
  · refine ⟨hhead.output, fun row hrow => ?_, fun h => ?_⟩
    · obtain ⟨call, hcall, -, hanswers⟩ := RowFor.exists_call hrows hrow
      rw [answers, Bool.and_eq_true, Option.any_eq_true] at hanswers ⊢
      obtain ⟨hnot, id, hid, hmem⟩ := hanswers
      have heq : id = call.id := by simpa using hmem
      refine ⟨hnot, id, hid, ?_⟩
      rw [hhead.callIds, heq, contains_eq_mem, decide_eq_true_eq]
      exact mem_map_of_mem hcall
    · rw [hhead.notProtected, hhead.role] at h
      simp at h

theorem framed_flat (h : ∀ c ∈ bs, BlockOk items make c) : Framed make items (flat bs) := by
  induction bs with
  | nil => exact .nil
  | cons c bs ih =>
    rw [forall_mem_cons] at h
    rcases h.1 with ⟨hhead, hrows⟩ | ⟨calls, hhead, hrows⟩
    · rw [Block.flat_cons, hrows]
      exact .single c.head (flat bs) (beq_eq_false_iff_ne.mp hhead.notRow) hhead.calls (ih h.2)
    · exact .calls c.head calls c.rows (flat bs) hhead.role hhead.calls
        (hrows.imp fun _ _ hfor => hfor.1) (ih h.2)

variable {new entries : List Entry}

theorem exists_singles (h : ∀ entry ∈ new, SingleEntry entry) :
    ∃ bs, flat bs = new ∧ ∀ c ∈ bs, BlockOk items make c := by
  induction new with
  | nil => exact ⟨[], rfl, forall_mem_nil _⟩
  | cons entry new ih =>
    rw [forall_mem_cons] at h
    obtain ⟨bs, rfl, hbs⟩ := ih h.2
    exact ⟨⟨entry, [], h.1.notRow, forall_mem_nil _⟩ :: bs, rfl,
      forall_mem_cons.mpr ⟨.inl ⟨h.1, rfl⟩, hbs⟩⟩

/-- Entries that are no tool rows show no output. -/
theorem shownIds_singles (h : ∀ entry ∈ new, SingleEntry entry) : shownIds new = [] :=
  flatMap_eq_nil_iff.mpr fun entry hentry => if_neg (Bool.eq_false_iff.mp (h entry hentry).notRow)

/-- The invariant of the loop over the rows. -/
structure Built (make : RowMaker) (items rest : List TranscriptItem) (b : Builder) : Prop where
  split : ∃ done, items = done ++ rest
  blocks : ∃ bs, b.entries = flat bs ∧ ∀ c ∈ bs, BlockOk items make c
  once : b.Once

variable {b : Builder}

theorem Built.pushItem {item : TranscriptItem} {rest : List TranscriptItem}
    (h : Built make items (item :: rest) b) :
    Built make items rest (b.pushItem E policy item rest.head?) := by
  obtain ⟨⟨done, hdone⟩, ⟨bs, hbs, hok⟩, honce⟩ := h
  obtain ⟨new, hadds⟩ := @Builder.pushItem_adds E policy b item rest.head?
  obtain ⟨cs, hcs, hcsok⟩ := @exists_singles items make new hadds.single
  refine ⟨⟨done ++ [item], by rw [hdone, append_assoc, singleton_append]⟩, ⟨bs ++ cs, ?_, ?_⟩, ?_⟩
  · rw [hadds.entries, hbs, Block.flat_append, hcs]
  · exact fun c hc => (mem_append.mp hc).elim (hok c) (hcsok c)
  · rw [Builder.Once, hadds.entries, hadds.consumed, shownIds_append, shownIds_singles hadds.single,
      append_nil]
    exact honce

theorem Built.pushGroup (hnodup : (items.map TranscriptItem.id).Nodup)
    {calls rest : List TranscriptItem}
    {final : Option TranscriptItem} (hcalls : ∀ call ∈ calls, call.isToolCall = true)
    (hfinal : ∀ item, final = some item → item.isAssistantFinal = true)
    (h : Built (toolRow E policy) items (calls ++ final.toList ++ rest) b) :
    Built (toolRow E policy) items rest (b.pushGroup E policy calls final rest) := by
  obtain ⟨⟨done, hdone⟩, ⟨bs, hbs, hok⟩, honce⟩ := h
  obtain ⟨tools, rows, hhead, hentries, hrows, honce', -⟩ :=
    @Builder.pushGroup_adds items done rest E policy calls final hnodup hdone hcalls hfinal b
  have hisRow : ∀ row ∈ rows, row.isRow = true := by
    intro row hrow
    obtain ⟨call, -, hshown, -⟩ := RowFor.exists_call hrows hrow
    exact beq_iff_eq.mpr hshown.role
  let c : Block isRow := ⟨b.groupEntry E calls final, rows, rfl, hisRow⟩
  refine ⟨⟨done ++ (calls ++ final.toList), by rw [hdone, append_assoc done]⟩, ⟨bs ++ [c], ?_, ?_⟩,
    honce' honce⟩
  · rw [hentries, hbs, Block.flat_append]
    simp [c]
  · exact forall_mem_append.mpr ⟨hok, forall_mem_singleton.mpr (.inr ⟨tools, hhead, hrows⟩)⟩

/-- **What holds when a prompt is built.** -/
theorem paired_buildEntries (t : Transcript) :
    Paired t.items (toolRow E policy) (buildEntries E policy 0 t.items {}).entries := by
  have hbuilt : Built (toolRow E policy) t.items [] (buildEntries E policy 0 t.items {}) :=
    buildEntries_induction (fun _ _ _ _ h => h.pushItem)
      (fun _ _ _ _ _ hcalls hfinal h => h.pushGroup t.nodup hcalls hfinal)
      ⟨⟨[], rfl⟩, ⟨[], rfl, forall_mem_nil _⟩, rfl, nodup_nil⟩
  exact ⟨hbuilt.blocks, hbuilt.once.1 ▸ (reverse_perm _).nodup_iff.mpr hbuilt.once.2⟩

/-! ## The limit -/

variable (n : ℕ)

/-- Cutting a tool row changes its text only. -/
theorem Entry.exists_cut (entry : Entry) :
    ∃ content, entry.cut E n = { entry with message.content := content } := by
  rw [cut]
  split_ifs
  · exact ⟨_, rfl⟩
  · exact ⟨entry.message.content, rfl⟩

theorem Entry.cut_of_not_isRow {entry : Entry} (h : entry.isRow = false) :
    entry.cut E n = entry := by
  have hcut : entry.isCut n = false := by
    rw [isCut, show (entry.message.role == .tool) = false from h, Bool.false_and]
  rw [cut, hcut, if_neg Bool.false_ne_true]

def cutRows (E : Surroundings) (n : ℕ) (make : RowMaker) : RowMaker := fun callId found =>
  (make callId found).cut E n

/-- The rows show what was recorded, or, if the prompt is limited, all of them may be cut. -/
def Makes (E : Surroundings) (policy : PromptBuildPolicy) (make : RowMaker) : Prop :=
  make = toolRow E policy ∨
    ∃ maxTokens ∈ policy.maxPromptTokenEstimate, make =
      cutRows E (maxToolBytes maxTokens) (toolRow E policy)

theorem RowFor.cut {call : ToolCall} (h : RowFor items make head call row) :
    RowFor items (cutRows E n make) head call (row.cut E n) := by
  obtain ⟨⟨hrole, hid, hshown⟩, hanswers⟩ := h
  obtain ⟨content, hcut⟩ := @exists_cut E n row
  refine ⟨⟨hcut ▸ hrole, hcut ▸ hid, ?_⟩, hcut ▸ hanswers⟩
  rcases hshown with rfl | ⟨output, hmem, envelope, hout, hcall, rfl, hlast⟩
  · exact .inl rfl
  · exact .inr ⟨output, hmem, envelope, hout, hcall, rfl, hlast⟩

def cutBlock (E : Surroundings) (n : ℕ) (c : Block Entry.isRow) : Block Entry.isRow where
  head := c.head
  rows := c.rows.map (Entry.cut E n)
  head_not := c.head_not
  rows_all := by
    intro row hrow
    obtain ⟨row', hrow', rfl⟩ := mem_map.mp hrow
    obtain ⟨content, hcut⟩ := @Entry.exists_cut E n row'
    rw [hcut]
    exact c.rows_all row' hrow'

theorem flat_cutBlock (bs : List (Block isRow)) :
    flat (bs.map (cutBlock E n)) = (flat bs).map (cut E n) := by
  induction bs with
  | nil => rfl
  | cons c bs ih =>
    rw [map_cons, Block.flat_cons, ih, Block.flat_cons, map_append, map_cons,
      cut_of_not_isRow n c.head_not]
    rfl

theorem BlockOk.cut (h : BlockOk items make c) :
    BlockOk items (cutRows E n make) (cutBlock E n c) := by
  rcases h with ⟨hhead, hrows⟩ | ⟨calls, hhead, hrows⟩
  · exact .inl ⟨hhead, map_eq_nil_iff.mpr hrows⟩
  · exact .inr ⟨calls, hhead, forall₂_map_right_iff.mpr (hrows.imp fun _ _ => RowFor.cut n)⟩

/-- **Cutting tool rows keeps a prompt paired.** -/
theorem Paired.cut (h : Paired items make entries) :
    Paired items (cutRows E n make) (entries.map (Entry.cut E n)) := by
  obtain ⟨⟨bs, rfl, hok⟩, hnodup⟩ := h
  have hshown : shownIds ((flat bs).map (cut E n)) = shownIds (flat bs) := by
    rw [shownIds, flatMap_map]
    refine flatMap_congr fun entry _ => ?_
    obtain ⟨content, hcut⟩ := @exists_cut E n entry
    rw [hcut]
    rfl
  refine ⟨⟨bs.map (cutBlock E n), (flat_cutBlock n bs).symm, fun c hc => ?_⟩, hshown ▸ hnodup⟩
  obtain ⟨c', hc', rfl⟩ := mem_map.mp hc
  exact (hok c' hc').cut n

/-- **Trimming keeps a prompt paired.** -/
theorem Paired.trim (h : Paired items make entries) (maxTokens : ℕ) (dropped : List SourceId) :
    Paired items make (trimPromptEntries entries maxTokens dropped).1 := by
  obtain ⟨⟨bs, rfl, hok⟩, hnodup⟩ := h
  obtain ⟨kept, hsub, htrim⟩ :=
    trimLoop_blocks (fun c hc => (hok c hc).shape) maxTokens (flat bs).length dropped
  rw [trimPromptEntries, htrim]
  exact ⟨⟨kept, rfl, fun c hc => hok c (hsub.subset hc)⟩,
    hnodup.sublist ((hsub.flatMap _).flatMap _)⟩

/-- **Prompts are paired.** In every prompt of a transcript the messages with tool calls are
directly followed by a row for each call, there are no other tool rows, and each output is shown
once at most, under the message that holds the last call with its id before it. -/
theorem forPrompt_framed (E : Surroundings) (policy : PromptBuildPolicy) (t : Transcript) :
    ∃ make, Makes E policy make ∧ Framed make t.items (forPrompt E policy t.items).entries ∧
      (shownIds (forPrompt E policy t.items).entries).Nodup := by
  have hbuilt : Paired t.items (toolRow E policy) (buildEntries E policy 0 t.items {}).entries :=
    paired_buildEntries t
  obtain ⟨make, hmake, ⟨bs, hbs, hok⟩, hnodup⟩ : ∃ make, Makes E policy make ∧
      Paired t.items make (forPrompt E policy t.items).entries := by
    rw [forPrompt]
    split
    · exact ⟨_, .inl rfl, hbuilt⟩
    next maxTokens hmax =>
      rw [truncateToolOutputsForContextPressure]
      split_ifs
      · exact ⟨_, .inl rfl, hbuilt.trim ..⟩
      · exact ⟨_, .inr ⟨maxTokens, hmax, rfl⟩, (hbuilt.cut _).trim ..⟩
  exact ⟨make, hmake, hbs ▸ framed_flat hok, hnodup⟩

end

/-- Two calls of one message with the same id, and an output for each. -/
def repeatedId : List TranscriptItem :=
  let output (text : String) : TranscriptItemKind := .toolOutput ⟨"a", "read", text, none, []⟩
  [⟨"c1", .assistantToolCall "a" "read" .null, some "g"⟩,
    ⟨"c2", .assistantToolCall "a" "read" .null, some "g"⟩,
    ⟨"o1", output "first", none⟩, ⟨"o2", output "second", none⟩]

/-- The first of two calls with one id gets the first output, before which the second call is the
last one with the id. -/
theorem repeated_id_shows_first_output :
    (repeatedId.map TranscriptItem.id).Nodup ∧
      ((forPrompt ⟨0, fun _ => ""⟩ {} repeatedId).entries.map fun entry =>
        (entry.sourceItemIds, entry.message.content)) =
        [([.item "c1", .item "c2"], ""), ([.item "o1"], "first"), ([.item "o2"], "second")] ∧
      lastCallBefore repeatedId "o1" "a" = some "c2" := by
  decide +kernel

end Octos.Context
