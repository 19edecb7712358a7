import Octos.Context.Prompt
import Octos.Base.Blocks

/-!
# Prompts in blocks

The messages of a prompt form blocks: a message, and the tool rows for its calls. Building a prompt
adds blocks at the end, cutting tool outputs changes no block, and trimming removes blocks from the
front.
-/

namespace Octos.Context

open List Block Context.Entry

open Agent (Message MessageRole ToolCall)

/-! ## The loop over the rows -/

section

variable {E : Surroundings} {policy : PromptBuildPolicy}

/-- Rows that went into the message before are passed over. -/
theorem buildEntries_skip (skip : ℕ) (items : List TranscriptItem) (b : Builder) :
    buildEntries E policy skip items b = buildEntries E policy 0 (items.drop skip) b := by
  induction skip generalizing items with
  | zero => rfl
  | succ skip ih =>
    cases items with
    | nil => rfl
    | cons item items => exact ih items

theorem callGroup_append_drop (first : TranscriptItem) (rest : List TranscriptItem) :
    callGroup first rest ++ rest.drop (callGroup first rest).length = rest :=
  prefix_iff_eq_append.mp (List.takeWhile_prefix _)

variable {first item : TranscriptItem} {rest : List TranscriptItem}

theorem isToolCall_of_mem_callGroup (h : item ∈ callGroup first rest) : item.isToolCall = true := by
  have hitem := mem_takeWhile_imp h
  rw [Bool.and_eq_true] at hitem
  exact hitem.1

theorem groupFinal_append_drop (first : TranscriptItem) (rest : List TranscriptItem) :
    (groupFinal first rest).toList ++ rest.drop (groupFinal first rest).toList.length = rest := by
  cases rest with
  | nil => rfl
  | cons =>
    rw [groupFinal, head?_cons, Option.filter]
    split_ifs <;> rfl

theorem isAssistantFinal_of_groupFinal
    (h : groupFinal first rest = some item) : item.isAssistantFinal = true := by
  have hitem := (Option.filter_eq_some_iff.mp h).2
  rw [Bool.and_eq_true] at hitem
  exact hitem.1

/-- **What the loop keeps.** A property of the rows to come and the messages so far that every row
and every batch of calls keeps holds at the end. -/
theorem buildEntries_induction {P : List TranscriptItem → Builder → Prop}
    (hitem : ∀ item rest b, item.isToolCall = false → P (item :: rest) b →
      P rest (b.pushItem E policy item rest.head?))
    (hgroup : ∀ (calls : List TranscriptItem) (final : Option TranscriptItem)
      (rest : List TranscriptItem) (b : Builder), calls ≠ [] →
      (∀ call ∈ calls, call.isToolCall = true) →
      (∀ item, final = some item → item.isAssistantFinal = true) →
        P (calls ++ final.toList ++ rest) b →
      P rest (b.pushGroup E policy calls final rest))
    {items : List TranscriptItem} {b : Builder} (h : P items b) :
    P [] (buildEntries E policy 0 items b) := by
  -- The loop passes over rows, so the induction is on how many are left.
  induction hn : items.length using Nat.strongRecOn generalizing items b with
  | ind n ih =>
    cases items with
    | nil => exact h
    | cons item rest =>
      rw [buildEntries]
      split_ifs with hcall
      · rw [buildEntries_skip]
        have hmore := callGroup_append_drop item rest
        have hfinal := groupFinal_append_drop item (rest.drop (callGroup item rest).length)
        rw [drop_drop] at hfinal
        refine ih _ ?_ (hgroup (item :: callGroup item rest) _ _ b (cons_ne_nil _ _) ?_
          (fun _ => isAssistantFinal_of_groupFinal) ?_) rfl
        · rw [← hn, length_drop, length_cons]
          omega
        · rintro call (_ | ⟨_, hcalls⟩)
          exacts [hcall, isToolCall_of_mem_callGroup hcalls]
        · rw [cons_append, cons_append, append_assoc, hfinal, hmore]
          exact h
      · refine ih rest.length ?_ (hitem item rest b (Bool.eq_false_iff.mpr hcall) h) rfl
        rw [← hn, length_cons]
        omega

end

/-! ## Groups that are removed -/

def Entry.isRow (entry : Entry) : Bool := entry.message.role == .tool

/-- The rows of a block answer the calls of its head; protected messages and those of the user have
none. -/
structure Shape (b : Block Entry.isRow) : Prop where
  head_output : b.head.toolOutputCallId = none
  rows_answer : ∀ row ∈ b.rows, row.answers b.head.toolCallIds = true
  single : b.head.isProtected = true ∨ b.head.message.role = .user → b.rows = []

open Block (flat)

variable {b : Block isRow} {bs : List (Block isRow)}

theorem Shape.not_answers (h : Shape b) (callIds : List String) :
    b.head.answers callIds = false := by
  rw [answers, h.head_output, Option.any_none, Bool.and_false]

/-- The head of a block is protected or begins a group. -/
theorem Shape.isRemovable_head (b : Block isRow) : b.head.isRemovable = !b.head.isProtected := by
  have hrow : (b.head.message.role == MessageRole.tool) = false := b.head_not
  rw [isRemovable, bne, hrow, Bool.not_false, Bool.and_true]

/-- A block whose head begins a turn that goes on. -/
def inTurn (b : Block Entry.isRow) : Bool := !b.head.isProtected && b.head.message.role != .user

theorem extendMatchingToolOutputs_flat (hb : Shape b) (hbs : ∀ c ∈ bs, Shape c) :
    extendMatchingToolOutputs b.head.toolCallIds (b.rows ++ flat bs) = b.rows.length := by
  rw [extendMatchingToolOutputs, takeWhile_append_of_pos hb.rows_answer]
  cases bs with
  | nil => simp
  | cons c bs => simp [(hbs c mem_cons_self).not_answers]

theorem extendTurn_rows {callIds : List String} {rows : List Entry}
    (h : ∀ row ∈ rows, row.answers callIds = true) (entries : List Entry) :
    extendTurn callIds (rows ++ entries) = rows.length + extendTurn callIds entries := by
  induction rows with
  | nil => simp
  | cons row rows ih =>
    rw [cons_append, extendTurn, if_pos (h row mem_cons_self),
      ih fun r hr => h r (mem_cons_of_mem row hr), length_cons]
    omega

/-- A turn is extended block by block. -/
theorem extendTurn_flat (hbs : ∀ c ∈ bs, Shape c) (callIds : List String) :
    extendTurn callIds (flat bs) = (flat (bs.takeWhile inTurn)).length := by
  induction bs generalizing callIds with
  | nil => rfl
  | cons c bs ih =>
    have hc := hbs c mem_cons_self
    rw [flat_cons, cons_append, extendTurn, hc.not_answers, if_neg Bool.false_ne_true,
      takeWhile_cons]
    by_cases hturn : inTurn c = true
    · have hstop : (c.head.isProtected || c.head.message.role == .user) = false := by
        simpa [inTurn] using hturn
      rw [if_pos hturn, hstop, if_neg Bool.false_ne_true, extendTurn_rows hc.rows_answer,
        ih fun d hd => hbs d (mem_cons_of_mem c hd), flat_cons]
      simp only [length_append, length_cons]
      omega
    · have hstop : (c.head.isProtected || c.head.message.role == .user) = true := by
        rw [inTurn] at hturn
        cases hp : c.head.isProtected with
        | true => rfl
        | false => simpa [hp] using hturn
      rw [if_neg hturn, hstop, if_pos rfl]
      rfl

variable {pre post : List (Block isRow)}

/-- The first message that is not protected. -/
theorem findIdx?_flat_some (hpre : ∀ c ∈ pre, c.head.isProtected = true)
    (hsingle : ∀ c ∈ pre, c.rows = []) (hb : b.head.isProtected = false) :
    (flat (pre ++ b :: post)).findIdx? isRemovable = some (flat pre).length := by
  induction pre with
  | nil =>
    have hremovable :
        b.head.isRemovable = true := by rw [Shape.isRemovable_head, hb, Bool.not_false]
    simp [findIdx?_cons, hremovable]
  | cons c pre ih =>
    have hremovable : c.head.isRemovable = false := by
      rw [Shape.isRemovable_head, hpre c mem_cons_self, Bool.not_true]
    have hrest := ih (fun d hd => hpre d (mem_cons_of_mem c hd))
      fun d hd => hsingle d (mem_cons_of_mem c hd)
    rw [cons_append, flat_cons, hsingle c mem_cons_self, cons_append,
      nil_append, findIdx?_cons, hremovable, hrest, flat_cons, hsingle c mem_cons_self]
    rfl

theorem any_isRequest_flat (bs : List (Block isRow)) :
    (flat bs).any isRequest = bs.any fun c => c.head.isRequest := by
  induction bs with
  | nil => rfl
  | cons c bs ih =>
    have hrows : c.rows.any isRequest = false := by
      rw [any_eq_false]
      intro row hrow
      have htool : row.message.role = .tool := by simpa [isRow] using c.rows_all row hrow
      simp [isRequest, htool]
    rw [flat_cons, cons_append, any_cons, any_append, hrows, Bool.false_or, ih, any_cons]

/-- **The first group that is removed.** Behind protected messages: a turn of the user, if a later
request is there, or else a message with its tool rows. -/
theorem firstRemovablePromptGroup_flat (hshape : ∀ c ∈ pre ++ b :: post, Shape c)
    (hpre : ∀ c ∈ pre, c.head.isProtected = true) (hb : b.head.isProtected = false) :
    firstRemovablePromptGroup (flat (pre ++ b :: post)) =
      if b.head.message.role = .user then
        if post.any fun c => c.head.isRequest then
          some ((flat pre).length, (flat (pre ++ b :: post.takeWhile inTurn)).length)
        else none
      else some ((flat pre).length, (flat (pre ++ [b])).length) := by
  have hsingle : ∀ c ∈ pre, c.rows = [] := fun c hc =>
    (hshape c (mem_append_left _ hc)).single (.inl (hpre c hc))
  have hbshape : Shape b := hshape b (mem_append_right pre mem_cons_self)
  have hpost : ∀ c ∈ post, Shape c := fun c hc =>
    hshape c (mem_append_right pre (mem_cons_of_mem b hc))
  have hdrop : (flat (pre ++ b :: post)).drop (flat pre).length =
      b.head :: (b.rows ++ flat post) := by
    rw [flat_append, drop_left, flat_cons, cons_append]
  rw [firstRemovablePromptGroup, findIdx?_flat_some hpre hsingle hb]
  dsimp only
  rw [hdrop]
  dsimp only
  by_cases huser : b.head.message.role = .user
  · have hrows : b.rows = [] := hbshape.single (.inr huser)
    have hstop : (flat (pre ++ b :: post.takeWhile inTurn)).length =
        (flat pre).length + 1 + (flat (post.takeWhile inTurn)).length := by
      simp only [flat_append, flat_cons, hrows, length_append, length_cons, length_nil]
      omega
    rw [huser, if_pos rfl, if_pos (by decide), hrows, nil_append, any_isRequest_flat,
      extendTurn_flat hpost, hstop]
  · have hne : (b.head.message.role == .user) = false := beq_eq_false_iff_ne.mpr huser
    have hstop : (flat (pre ++ [b])).length = (flat pre).length + 1 + b.rows.length := by
      simp only [flat_append, flat_cons, flat_nil, length_append, length_cons, length_nil]
      omega
    rw [if_neg huser, hne, if_neg Bool.false_ne_true,
      extendMatchingToolOutputs_flat hbshape hpost, hstop]

/-- Protected messages are not removed. -/
theorem firstRemovablePromptGroup_protected (hshape : ∀ c ∈ bs, Shape c)
    (h : ∀ c ∈ bs, c.head.isProtected = true) : firstRemovablePromptGroup (flat bs) = none := by
  have hfind : (flat bs).findIdx? isRemovable = none := by
    rw [findIdx?_eq_none_iff]
    intro entry hentry
    obtain ⟨c, hc, rfl | hrow⟩ := mem_flat.mp hentry
    · rw [Shape.isRemovable_head, h c hc, Bool.not_true]
    · rw [(hshape c hc).single (.inl (h c hc))] at hrow
      cases hrow
  rw [firstRemovablePromptGroup, hfind]

/-- Behind some protected blocks there is a block that is not, or none. -/
theorem exists_unprotected (bs : List (Block isRow)) :
    (∀ c ∈ bs, c.head.isProtected = true) ∨
      ∃ pre b post, bs = pre ++ b :: post ∧ (∀ c ∈ pre, c.head.isProtected = true) ∧
        b.head.isProtected = false := by
  induction bs with
  | nil => exact .inl fun c hc => by cases hc
  | cons c bs ih =>
    cases hc : c.head.isProtected with
    | false => exact .inr ⟨[], c, bs, rfl, forall_mem_nil _, hc⟩
    | true =>
      rcases ih with hall | ⟨pre, b, post, rfl, hpre, hb⟩
      · exact .inl (forall_mem_cons.mpr ⟨hc, hall⟩)
      · exact .inr ⟨c :: pre, b, post, rfl, forall_mem_cons.mpr ⟨hc, hpre⟩, hb⟩

/-- A round of trimming takes out the messages between two block borders. -/
theorem flat_borders (pre removed post : List (Block isRow)) :
    (flat (pre ++ removed ++ post)).take (flat pre).length ++
        (flat (pre ++ removed ++ post)).drop (flat (pre ++ removed)).length = flat (pre ++ post) ∧
      ((flat (pre ++ removed ++ post)).take (flat (pre ++ removed)).length).drop (flat pre).length =
        flat removed := by
  constructor
  · rw [flat_append (pre ++ removed), drop_left, flat_append pre removed,
      append_assoc, take_left, flat_append]
  · rw [flat_append (pre ++ removed), take_left, flat_append pre removed, drop_left]

/-- Which blocks a round of trimming removes: the ones in the middle. -/
theorem exists_removed (hshape : ∀ c ∈ bs, Shape c) {start stop : ℕ}
    (h : firstRemovablePromptGroup (flat bs) = some (start, stop)) :
    ∃ pre removed post, bs = pre ++ removed ++ post ∧ start = (flat pre).length ∧
      stop = (flat (pre ++ removed)).length := by
  rcases exists_unprotected bs with hall | ⟨pre, b, post, rfl, hpre, hb⟩
  · rw [firstRemovablePromptGroup_protected hshape hall] at h
    cases h
  · rw [firstRemovablePromptGroup_flat hshape hpre hb] at h
    split_ifs at h with huser hlater
    · obtain ⟨rfl, rfl⟩ := Prod.mk.inj (Option.some.inj h)
      refine ⟨pre, b :: post.takeWhile inTurn, post.dropWhile inTurn, ?_, rfl, rfl⟩
      simp [takeWhile_append_dropWhile]
    · obtain ⟨rfl, rfl⟩ := Prod.mk.inj (Option.some.inj h)
      exact ⟨pre, [b], post, by simp, rfl, rfl⟩

theorem trimLoop_blocks (hshape : ∀ c ∈ bs, Shape c) (maxTokens fuel : ℕ)
    (dropped : List SourceId) :
    ∃ kept, kept.Sublist bs ∧ (trimLoop maxTokens fuel (flat bs) dropped).1 = flat kept := by
  induction fuel generalizing bs dropped with
  | zero => exact ⟨bs, List.Sublist.refl bs, rfl⟩
  | succ fuel ih =>
    rw [trimLoop]
    split_ifs
    · cases hgroup : firstRemovablePromptGroup (flat bs) with
      | none => exact ⟨bs, List.Sublist.refl bs, rfl⟩
      | some group =>
        obtain ⟨start, stop⟩ := group
        obtain ⟨pre, removed, post, rfl, rfl, rfl⟩ := exists_removed hshape hgroup
        have hsub : (pre ++ post).Sublist (pre ++ removed ++ post) := by
          rw [append_assoc]
          exact (sublist_append_right removed post).append_left pre
        dsimp only
        rw [(flat_borders pre removed post).1]
        obtain ⟨kept, hsubkept, htrim⟩ := ih (fun c hc => hshape c (hsub.subset hc)) _
        exact ⟨kept, hsubkept.trans hsub, htrim⟩
    · exact ⟨bs, List.Sublist.refl bs, rfl⟩

end Octos.Context
