import Mathlib.Data.List.Nodup
import Octos.Context.Pairing

/-!
# The request in a prompt

Trimming removes what may go before the newest request of the user first, and the request itself
only if a later request is there. A later request is a later unprotected message of the user, and
context events are written as such: where an event follows the request, and what has to stay does
not fit, the request is removed (`event_displaces_request`).

## Main results

* `trimLoop_request`: when trimming removes a request
* `request_survives_iff`: when the newest request is in the prompt
-/

namespace Octos.Context

open List Context.Entry TranscriptItem SourceId Block

open Agent (Message MessageRole ToolCall)
open Block (flat)

/-! ## What is counted and recorded -/

theorem estimateEntriesTokens_mono {l l' : List Entry} (h : l.Sublist l') :
    estimateEntriesTokens l ≤ estimateEntriesTokens l' := by
  have hsum : (l.map bytes).sum ≤ (l'.map bytes).sum := by
    induction h with
    | slnil => exact le_rfl
    | cons =>
      rw [map_cons, sum_cons]
      omega
    | cons_cons =>
      rw [map_cons, sum_cons, map_cons, sum_cons]
      omega
  rw [estimateEntriesTokens, estimateEntriesTokens]
  omega

variable {ids : List SourceId}

theorem mem_pushUniqueItemId {x id : SourceId} :
    x ∈ pushUniqueItemId ids id ↔ x ∈ ids ∨ x = id := by
  rw [pushUniqueItemId]
  split_ifs with h
  · have hmem : id ∈ ids := by simpa using h
    exact ⟨.inl, fun hx => hx.elim (fun hx => hx) fun hx => hx ▸ hmem⟩
  · simp

variable {x : SourceId}

theorem mem_recordIds {entries : List Entry} :
    x ∈ recordIds ids entries ↔ x ∈ ids ∨ ∃ entry ∈ entries, x ∈ entry.sourceItemIds := by
  rw [← mem_flatMap, recordIds]
  generalize entries.flatMap sourceItemIds = l
  induction l generalizing ids with
  | nil => simp
  | cons y l ih => rw [foldl_cons, ih, mem_pushUniqueItemId, or_assoc, mem_cons]

theorem mem_trimLoop (maxTokens fuel : ℕ) (entries : List Entry) {dropped : List SourceId}
    (h : x ∈ dropped) : x ∈ (trimLoop maxTokens fuel entries dropped).2 := by
  induction fuel generalizing entries dropped with
  | zero => exact h
  | succ fuel ih =>
    rw [trimLoop]
    split_ifs
    · split
      · exact h
      · exact ih _ (mem_recordIds.mpr (.inl h))
    · exact h

/-! ## Trimming up to a request -/

section

variable {pre post before after : List (Block isRow)} {b u : Block isRow} {id : String}

/-- What a round removes before a request: a block and the turn it begins, all of them not
protected. -/
theorem exists_removed_before (hshape : ∀ c ∈ (pre ++ b :: post) ++ u :: after, Shape c)
    (hpre : ∀ c ∈ pre, c.head.isProtected = true) (hb : b.head.isProtected = false)
    (hu : u.head.isRequest = true) :
    ∃ turn rest, post = turn ++ rest ∧ (∀ c ∈ turn, c.head.isProtected = false) ∧
      firstRemovablePromptGroup (flat ((pre ++ b :: post) ++ u :: after)) =
        some ((flat pre).length, (flat (pre ++ b :: turn)).length) := by
  have hturn : inTurn u = false := by
    rw [isRequest, Bool.and_eq_true, beq_iff_eq] at hu
    simp [inTurn, hu.2]
  rw [append_assoc, cons_append] at hshape ⊢
  rw [firstRemovablePromptGroup_flat hshape hpre hb]
  split_ifs with huser hlater
  · refine ⟨post.takeWhile inTurn, post.dropWhile inTurn, takeWhile_append_dropWhile.symm, ?_, ?_⟩
    · intro c hc
      have hc := mem_takeWhile_imp hc
      rw [inTurn, Bool.and_eq_true] at hc
      simpa using hc.1
    · have htake : (post ++ u :: after).takeWhile inTurn = post.takeWhile inTurn := by
        rw [takeWhile_append]
        split_ifs with hall
        · rw [takeWhile_cons, hturn, if_neg Bool.false_ne_true, append_nil]
          exact (List.takeWhile_prefix inTurn).eq_of_length hall |>.symm
        · rfl
      rw [htake]
  · rw [any_append, any_cons, hu, Bool.true_or, Bool.or_true] at hlater
    exact absurd rfl hlater
  · exact ⟨[], post, rfl, forall_mem_nil _, rfl⟩

/-- **When trimming removes a request.** What may go before it is removed first; the request is
removed if what is left then does not fit, and a later request is there. -/
theorem trimLoop_request {maxTokens fuel : ℕ} {dropped : List SourceId}
    (hshape : ∀ c ∈ before ++ u :: after, Shape c) (hu : u.head.isRequest = true)
    (hid : item id ∈ u.head.sourceItemIds)
    (hothers : ∀ entry ∈ flat before, item id ∉ entry.sourceItemIds)
    (hdropped : item id ∉ dropped) (hfuel : before.length < fuel) :
    let stays := (after.any fun c => c.head.isRequest) = false ∨
      estimateEntriesTokens (flat (before.filter (·.head.isProtected) ++ u :: after)) ≤ maxTokens
    let result := trimLoop maxTokens fuel (flat (before ++ u :: after)) dropped
    stays ∧ u.head ∈ result.1 ∧ item id ∉ result.2 ∨ ¬ stays ∧ item id ∈ result.2 := by
  have hmem : ∀ before : List (Block isRow), u.head ∈ flat (before ++ u :: after) := fun before =>
    mem_flat.mpr ⟨u, mem_append_right _ mem_cons_self, .inl rfl⟩
  -- On the rounds: each removes a group before the request, or the request with its turn.
  induction fuel generalizing before dropped with
  | zero => exact absurd hfuel (Nat.not_lt_zero _)
  | succ fuel ih =>
    rw [trimLoop]
    split_ifs with hover
    · rcases exists_unprotected before with hall | ⟨pre, b, post, rfl, hpre, hb⟩
      · -- All that is left before the request is protected.
        have hkept : before.filter (·.head.isProtected) = before := filter_eq_self.mpr hall
        have hrole : u.head.message.role = .user ∧ u.head.isProtected = false := by
          rw [isRequest, Bool.and_eq_true, beq_iff_eq, Bool.not_eq_true'] at hu
          exact hu.symm
        rw [hkept, firstRemovablePromptGroup_flat hshape hall hrole.2, if_pos hrole.1]
        cases hlater : after.any fun c => c.head.isRequest with
        | false => exact .inl ⟨.inl rfl, hmem before, hdropped⟩
        | true =>
          refine .inr ⟨?_, ?_⟩
          · rintro (h | h)
            exacts [absurd h.symm Bool.false_ne_true, absurd h (Nat.not_le.mpr hover.1)]
          · refine mem_trimLoop _ _ _ (mem_recordIds.mpr (.inr ⟨u.head, ?_, hid⟩))
            have hborders :=
              (flat_borders before (u :: after.takeWhile inTurn) (after.dropWhile inTurn)).2
            rw [append_assoc, cons_append, takeWhile_append_dropWhile] at hborders
            rw [hborders]
            exact mem_cons_self
      · -- A group before the request goes, and what is left has the same form.
        obtain ⟨turn, rest, rfl, hturn, hgroup⟩ := exists_removed_before hshape hpre hb hu
        have hsplit : (pre ++ b :: (turn ++ rest)) ++ u :: after =
            pre ++ (b :: turn) ++ (rest ++ u :: after) := by simp
        have hkept : (pre ++ b :: (turn ++ rest)).filter (·.head.isProtected) =
            (pre ++ rest).filter (·.head.isProtected) := by
          have hnone : turn.filter (·.head.isProtected) = [] :=
            filter_eq_nil_iff.mpr fun c hc => Bool.eq_false_iff.mp (hturn c hc)
          simp [hb, hnone]
        rw [hgroup, hkept]
        dsimp only
        rw [hsplit, (flat_borders ..).1, (flat_borders ..).2, ← append_assoc]
        have hsub : ∀ c ∈ pre ++ rest, c ∈ pre ++ b :: (turn ++ rest) := by
          intro c hc
          simp only [mem_append, mem_cons] at hc ⊢
          tauto
        refine ih (fun c hc => hshape c ?_) (fun entry hentry => hothers entry ?_) ?_ ?_
        · rcases mem_append.mp hc with hc | hc
          exacts [mem_append_left _ (hsub c hc), mem_append_right _ hc]
        · obtain ⟨c, hc, hentry⟩ := mem_flat.mp hentry
          exact mem_flat.mpr ⟨c, hsub c hc, hentry⟩
        · rw [mem_recordIds, not_or]
          refine ⟨hdropped, ?_⟩
          rintro ⟨entry, hentry, hx⟩
          refine hothers entry ?_ hx
          obtain ⟨c, hc, hentry⟩ := mem_flat.mp hentry
          refine mem_flat.mpr ⟨c, mem_append_right _ ?_, hentry⟩
          exact mem_append_left _ hc
        · simp only [length_append, length_cons] at hfuel ⊢
          omega
    · -- The loop ends: the prompt fits, or it is a single message.
      refine .inl ⟨?_, hmem before, hdropped⟩
      rw [not_and_or, Nat.not_lt, Nat.not_lt] at hover
      rcases hover with hfits | hshort
      · refine .inr ((estimateEntriesTokens_mono ?_).trans hfits)
        exact (filter_sublist.append_right _).flatMap _
      · have hnil : after = [] := by
          rw [flat_append, flat_cons, length_append, length_append, length_cons] at hshort
          cases after with
          | nil => rfl
          | cons =>
            rw [flat_cons, cons_append, length_cons] at hshort
            omega
        exact .inl (by rw [hnil]; rfl)

end

/-- What is left of a prompt when all is removed that may go before a request. -/
def fromRequest (id : String) (entries : List Entry) : List Entry :=
  (entries.takeWhile fun entry => entry.sourceItemIds != [.item id]).filter Entry.isProtected ++
    entries.dropWhile fun entry => entry.sourceItemIds != [.item id]

/-- The messages with that of a request, of which nothing else is made, and whether a later request
is there. -/
structure Requested (items : List TranscriptItem) (request : Entry) (id : String) (later : Bool)
    (entries : List Entry) : Prop where
  paired : ∃ make, Paired items make entries
  split : ∃ before after, entries = before ++ request :: after ∧
    (∀ entry ∈ before ++ after, SourceId.item id ∉ entry.sourceItemIds) ∧
      after.any Entry.isRequest = later

section

variable {items : List TranscriptItem} {bs : List (Block isRow)} {request : Entry} {id : String}
  {later : Bool} {entries : List Entry}

theorem filter_isProtected_flat (hshape : ∀ c ∈ bs, Shape c) :
    (flat bs).filter isProtected = flat (bs.filter (·.head.isProtected)) := by
  induction bs with
  | nil => rfl
  | cons c bs ih =>
    rw [forall_mem_cons] at hshape
    have hrows : c.rows.filter isProtected = [] := by
      refine filter_eq_nil_iff.mpr fun row hrow => ?_
      have hanswers := hshape.1.rows_answer row hrow
      rw [answers, Bool.and_eq_true, Bool.not_eq_true'] at hanswers
      exact Bool.eq_false_iff.mp hanswers.1
    rw [flat_cons, cons_append, filter_cons, filter_append, hrows, nil_append,
      ih hshape.2, filter_cons]
    split_ifs with hprotected
    · rw [flat_cons, hshape.1.single (.inl hprotected)]
      rfl
    · rfl

/-- Trimming a prompt with a request, message by message. -/
theorem Requested.trim_iff (h : Requested items request id later entries)
    (hrequest : request.isRequest = true)
    (hid : request.sourceItemIds = [.item id]) (maxTokens : ℕ) {dropped : List SourceId}
    (hdropped : item id ∉ dropped) :
    (request.message ∈ (trimPromptEntries entries maxTokens dropped).1.map Entry.message ∧
        item id ∉ (trimPromptEntries entries maxTokens dropped).2) ↔
      later = false ∨ estimateEntriesTokens (fromRequest id entries) ≤ maxTokens := by
  obtain ⟨⟨_, ⟨bs, hbs, hok⟩, -⟩, before, after, rfl, hothers, rfl⟩ := h
  have huser : request.message.role = .user := by
    rw [isRequest, Bool.and_eq_true, beq_iff_eq] at hrequest
    exact hrequest.2
  have hnot : request.isRow = false := by rw [isRow, huser]; rfl
  -- The request is the head of a block without rows.
  obtain ⟨cs, u, ds, rfl, rfl, hcs, hds⟩ := split_head (forall_mem_nil _) hnot
    ((nil_append _).trans hbs.symm)
  have hshape : ∀ c ∈ cs ++ u :: ds, Shape c := fun c hc => (hok c hc).shape
  have hrows : u.rows = [] :=
    (hshape u (mem_append_right cs mem_cons_self)).single (.inr huser)
  rw [nil_append] at hcs
  rw [hrows, nil_append] at hds
  subst hcs hds
  have hfrom : fromRequest id (flat cs ++ u.head :: flat ds) =
      flat (cs.filter (·.head.isProtected) ++ u :: ds) := by
    have hbefore : ∀ entry ∈ flat cs, (entry.sourceItemIds != [.item id]) = true := by
      intro entry hentry
      refine bne_iff_ne.mpr fun heq => hothers entry (mem_append_left _ hentry) ?_
      rw [heq]
      exact mem_singleton_self _
    have hhere : (u.head.sourceItemIds != [.item id]) = false := by rw [hid, bne_self_eq_false]
    rw [fromRequest, takeWhile_append_of_pos hbefore, dropWhile_append_of_pos hbefore,
      takeWhile_cons, dropWhile_cons, hhere, if_neg Bool.false_ne_true,
      if_neg Bool.false_ne_true, append_nil,
      filter_isProtected_flat fun c hc => hshape c (mem_append_left _ hc), flat_append,
      flat_cons, hrows]
    rfl
  have hlength : cs.length < (flat (cs ++ u :: ds)).length := by
    have hle : ∀ l : List (Block isRow), l.length ≤ (flat l).length := by
      intro l
      induction l with
      | nil => exact le_rfl
      | cons =>
        rw [flat_cons, cons_append, length_cons, length_cons, length_append]
        omega
    have hall := hle (cs ++ u :: ds)
    rw [length_append, length_cons] at hall
    omega
  rw [hfrom, any_isRequest_flat, trimPromptEntries, hbs]
  rcases trimLoop_request hshape hrequest (by rw [hid]; exact mem_singleton_self _)
    (fun entry hentry => hothers entry (mem_append_left _ hentry)) hdropped hlength with
    ⟨hstays, hmem, hnot⟩ | ⟨hgone, hin⟩
  · exact iff_of_true ⟨mem_map.mpr ⟨_, hmem, rfl⟩, hnot⟩ hstays
  · exact iff_of_false (fun h => h.2 hin) hgone

/-- Cutting tool rows leaves the request alone. -/
theorem Requested.cut {E : Surroundings} (h : Requested items request id later entries)
    (hrow : request.isRow = false) (maxTokens : ℕ) (truncated : List SourceId) :
    Requested items request id later
      (truncateToolOutputsForContextPressure E entries maxTokens truncated).1 := by
  rw [truncateToolOutputsForContextPressure]
  split_ifs
  · exact h
  · obtain ⟨⟨_, hpaired⟩, before, after, rfl, hothers, hlater⟩ := h
    refine ⟨⟨_, hpaired.cut _⟩, before.map (cut E (maxToolBytes maxTokens)),
      after.map (cut E (maxToolBytes maxTokens)), ?_, ?_, ?_⟩
    · rw [map_append, map_cons, cut_of_not_isRow _ hrow]
    · rw [← map_append]
      intro e he
      obtain ⟨e, hmem, rfl⟩ := mem_map.mp he
      obtain ⟨content, hcut⟩ := @exists_cut E (maxToolBytes maxTokens) e
      rw [hcut]
      exact hothers e hmem
    · rw [← hlater, any_map]
      congr 1
      funext e
      obtain ⟨content, hcut⟩ := @exists_cut E (maxToolBytes maxTokens) e
      rw [Function.comp_apply, hcut]
      rfl

end

/-! ## The request in the messages of a transcript -/

def requestEntry (E : Surroundings) (policy : PromptBuildPolicy) (id content : String)
    (media : List String) :
    Entry :=
  ⟨userMessage E policy content media, [.item id], false, [], none⟩

/-- How the messages stand to a request while the rows are read: nothing is of it as long as it is
to come; then its message is there, and the requests behind it are the context events. -/
inductive Reached (request : TranscriptItem) (entry : Entry) (before after : List TranscriptItem) :
    List TranscriptItem → List Entry → Prop
  | ahead {done tail : List TranscriptItem} {entries : List Entry} (hbefore : before = done ++ tail)
      (hothers : ∀ e ∈ entries, SourceId.item request.id ∉ e.sourceItemIds) :
      Reached request entry before after (tail ++ request :: after) entries
  | behind {mid rest : List TranscriptItem} {earlier later : List Entry}
      (hafter : after = mid ++ rest)
      (hothers : ∀ e ∈ earlier ++ later, SourceId.item request.id ∉ e.sourceItemIds)
      (hrequests : later.any Entry.isRequest = mid.any TranscriptItem.isContextEvent) :
      Reached request entry before after rest (earlier ++ entry :: later)

section

variable {request : TranscriptItem} {entry : Entry} {before after chunk rest : List TranscriptItem}
  {entries new : List Entry}

/-- Rows that are not the request, and what they add. -/
theorem Reached.grow (hnewest : ∀ item ∈ after, item.isUserInput = false)
    (h : Reached request entry before after (chunk ++ rest) entries) (hchunk : request ∉ chunk)
    (hnew : ∀ e ∈ new, item request.id ∉ e.sourceItemIds)
    (hrequests : (∀ item ∈ chunk, item.isUserInput = false) →
      new.any isRequest = chunk.any isContextEvent) :
    Reached request entry before after rest (entries ++ new) := by
  generalize hrows : chunk ++ rest = rows at h
  cases h with
  | @ahead done tail entries hbefore hothers =>
    -- The request is behind the rows.
    obtain ⟨tail', rfl, rfl⟩ : ∃ tail', tail = chunk ++ tail' ∧
        rest = tail' ++ request :: after := by
      rcases append_eq_append_iff.mp hrows with ⟨c, htail, hrest⟩ | ⟨c, hc, hrest⟩
      · exact ⟨c, htail, hrest⟩
      · cases c with
        | nil => exact ⟨[], by rw [hc, append_nil, append_nil], hrest.symm⟩
        | cons =>
          rw [cons_append, List.cons.injEq] at hrest
          rw [hc, ← hrest.1] at hchunk
          exact absurd (mem_append_right _ mem_cons_self) hchunk
    rw [← append_assoc] at hbefore
    exact .ahead hbefore (forall_mem_append.mpr ⟨hothers, hnew⟩)
  | @behind mid rest' earlier later hafter hothers hlater =>
    subst hrows
    have hquiet : ∀ item ∈ chunk, item.isUserInput = false := by
      intro item hitem
      refine hnewest item ?_
      rw [hafter]
      exact mem_append_right _ (mem_append_left _ hitem)
    rw [← append_assoc] at hafter
    rw [append_assoc, cons_append]
    refine .behind hafter ?_ ?_
    · rw [← append_assoc]
      exact forall_mem_append.mpr ⟨hothers, hnew⟩
    · rw [any_append, any_append, hlater, hrequests hquiet]

/-- The request itself. -/
theorem Reached.atRequest (h : Reached request entry before after (request :: rest) entries)
    (hbefore : request ∉ before) (hafter : request ∉ after) :
    Reached request entry before after rest (entries ++ [entry]) := by
  generalize hrows : request :: rest = rows at h
  cases h with
  | @ahead done tail entries hsplit hothers =>
    cases tail with
    | nil =>
      rw [nil_append, List.cons.injEq] at hrows
      exact .behind (by rw [hrows.2, nil_append]) (by rwa [append_nil]) rfl
    | cons =>
      rw [cons_append, List.cons.injEq] at hrows
      rw [hsplit, ← hrows.1] at hbefore
      exact absurd (mem_append_right _ mem_cons_self) hbefore
  | @behind mid rest' earlier later hsplit =>
    rw [hsplit, ← hrows] at hafter
    exact absurd (mem_append_right _ mem_cons_self) hafter

variable {E : Surroundings} {policy : PromptBuildPolicy} {t : Transcript} {content : String}
  {media : List String}

/-- **The request in the messages of a transcript.** -/
theorem requested_buildEntries (hsplit : t.items = before ++ request :: after)
    (hkind : request.kind = .userInput content media)
    (hnewest : ∀ item ∈ after, item.isUserInput = false) :
    Requested t.items (requestEntry E policy request.id content media) request.id
        (after.any isContextEvent) (buildEntries E policy 0 t.items {}).entries ∧
      (buildEntries E policy 0 t.items {}).Quiet request.id := by
  have hmem : request ∈ t.items := hsplit ▸ mem_append_right _ mem_cons_self
  have hids : ∀ item ∈ t.items, item ≠ request → item.id ≠ request.id := fun item hitem hne hid =>
    hne (inj_on_of_nodup_map t.nodup hitem hmem hid)
  have honce : request ∉ before ∧ request ∉ after := by
    have hnodup := List.Nodup.of_map _ (hsplit ▸ t.nodup)
    rw [nodup_append, nodup_cons] at hnodup
    exact ⟨fun h => hnodup.2.2 _ h _ mem_cons_self rfl, hnodup.2.1.1⟩
  let P (rest : List TranscriptItem) (b : Builder) : Prop := (∃ done, t.items = done ++ rest) ∧
    b.Quiet request.id ∧
    Reached request (requestEntry E policy request.id content media) before after rest b.entries
  have hbuilt : P [] (buildEntries E policy 0 t.items {}) := by
    refine buildEntries_induction ?_ ?_ ⟨⟨[], rfl⟩, ⟨not_mem_nil, nofun⟩, ?_⟩
    · rintro item rest b - ⟨⟨done, hdone⟩, hquiet, hreached⟩
      refine ⟨⟨done ++ [item], by rw [hdone, append_assoc, singleton_append]⟩, ?_⟩
      by_cases hitem : item = request
      · subst hitem
        refine ⟨by rw [Builder.pushItem, hkind]; exact hquiet, ?_⟩
        have hentries : (b.pushItem E policy item rest.head?).entries =
            b.entries ++ [requestEntry E policy item.id content media] := by
          rw [Builder.pushItem, hkind]
          rfl
        exact hentries ▸ hreached.atRequest honce.1 honce.2
      · have hne := hids item (hdone ▸ mem_append_right _ mem_cons_self) hitem
        obtain ⟨new, hadds⟩ := @Builder.pushItem_adds E policy b item rest.head?
        obtain ⟨hquiet', hnew⟩ := hadds.quiet request.id hne.symm hquiet
        refine ⟨hquiet', hadds.entries ▸ @Reached.grow _ _ _ _ [item] rest _ _ hnewest hreached
          ?_ hnew ?_⟩
        · exact fun h => hitem (mem_singleton.mp h).symm
        · intro huser
          rw [hadds.requests, huser item (mem_singleton_self _), Bool.false_or, any_cons,
            any_nil, Bool.or_false]
    · rintro calls final rest b - hcalls hfinal ⟨⟨done, hdone⟩, hquiet, hreached⟩
      obtain ⟨tools, rows, hhead, hentries, hrows, -, hquiet'⟩ :=
        @Builder.pushGroup_adds t.items done rest E policy calls final t.nodup hdone hcalls hfinal b
      -- Neither calls nor the text after them are requests or events.
      have hkinds : ∀ item ∈ calls ++ final.toList, item ≠ request ∧
          item.isContextEvent = false := by
        intro item hitem
        have hitem' : item.isToolCall = true ∨ item.isAssistantFinal = true := by
          rcases mem_append.mp hitem with h | h
          exacts [.inl (hcalls item h), .inr (hfinal item (Option.mem_toList.mp h))]
        constructor
        · rintro rfl
          simp [isToolCall, isAssistantFinal, hkind] at hitem'
        · cases hk : item.kind <;>
            simp_all [isToolCall, isAssistantFinal, isContextEvent]
      refine ⟨⟨done ++ (calls ++ final.toList), by rw [hdone, append_assoc done]⟩,
        hquiet' _ hquiet, hentries ▸ hreached.grow hnewest (fun h => (hkinds request h).1 rfl) ?_
          fun _ => ?_⟩
      · rw [forall_mem_cons]
        constructor
        · have hne : ∀ item ∈ calls ++ final.toList, item.id ≠ request.id := fun item hitem =>
            hids item (hdone ▸ mem_append_right _ (mem_append_left _ hitem)) (hkinds item hitem).1
          rw [Builder.groupEntry, append_assoc, ← map_append]
          intro h
          rcases mem_append.mp h with h | h
          · obtain ⟨pending, hpending, heq⟩ := mem_map.mp h
            exact hquiet.2 pending (Option.mem_toList.mp hpending) (item.inj heq)
          · obtain ⟨item, hitem, heq⟩ := mem_map.mp h
            exact hne item hitem (SourceId.item.inj heq)
        · intro row hrow h
          obtain ⟨call, -, hshown, -⟩ := RowFor.exists_call hrows hrow
          rcases hshown.shown with heq | ⟨output, hout, envelope, henvelope, -, heq, -⟩
          · simp [heq, Builder.toolRow] at h
          · rw [heq, Builder.toolRow, mem_singleton] at h
            refine hids output hout ?_ (item.inj h).symm
            rintro rfl
            simp [output?, hkind] at henvelope
      · have hevents : (calls ++ final.toList).any isContextEvent = false :=
          any_eq_false.mpr fun item hitem => Bool.eq_false_iff.mp (hkinds item hitem).2
        rw [hevents, any_eq_false]
        rintro e (_ | ⟨_, hrow⟩)
        · simp [isRequest, hhead.role]
        · obtain ⟨call, -, hshown, -⟩ := RowFor.exists_call hrows hrow
          simp [isRequest, hshown.role]
    · rw [hsplit]
      exact .ahead (nil_append before).symm (forall_mem_nil _)
  obtain ⟨-, hquiet, hreached⟩ := hbuilt
  refine ⟨⟨⟨_, paired_buildEntries t⟩, ?_⟩, hquiet⟩
  generalize (buildEntries E policy 0 t.items {}).entries = entries at hreached
  generalize hrows : ([] : List TranscriptItem) = rows at hreached
  cases hreached with
  | @ahead done tail => simp at hrows
  | @behind mid rest earlier later hafter hothers hrequests =>
    rw [← hrows, append_nil] at hafter
    exact ⟨earlier, later, rfl, hothers, hafter ▸ hrequests⟩

/-- The limit does not reach a request: what is left of the prompt without a limit, when its tool
outputs are cut and all is removed that may go before the request, fits. -/
def LeavesRoom (E : Surroundings) (policy : PromptBuildPolicy) (items : List TranscriptItem)
    (id : String) : Prop :=
  ∀ maxTokens, policy.maxPromptTokenEstimate = some maxTokens →
    let entries := (forPrompt E { policy with maxPromptTokenEstimate := none } items).entries
    estimateEntriesTokens
      (fromRequest id (truncateToolOutputsForContextPressure E entries maxTokens []).1) ≤ maxTokens

/-- The messages do not depend on the limit. -/
theorem buildEntries_uncapped (skip : ℕ) (items : List TranscriptItem) (b : Builder) :
    buildEntries E { policy with maxPromptTokenEstimate := none } skip items b =
      buildEntries E policy skip items b := by
  induction items generalizing skip b with
  | nil => cases skip <;> rfl
  | cons item rest ih =>
    cases skip with
    | zero =>
      rw [buildEntries, buildEntries]
      simp only [ih]
      rfl
    | succ skip => exact ih skip b

/-- **When the newest request survives.** Its message is in the prompt, and it is not among the rows
left out, exactly if no context event follows it or the limit leaves room. -/
theorem request_survives_iff (hsplit : t.items = before ++ request :: after)
    (hkind : request.kind = .userInput content media)
    (hnewest : ∀ item ∈ after, item.isUserInput = false) :
    (userMessage E policy content media ∈ (forPrompt E policy t.items).messages ∧
        SourceId.item request.id ∉ (forPrompt E policy t.items).dropped) ↔
      (∀ item ∈ after, item.isContextEvent = false) ∨ LeavesRoom E policy t.items request.id := by
  obtain ⟨hrequested, hquiet⟩ :=
    @requested_buildEntries _ _ _ E policy t content media hsplit hkind hnewest
  have hroom : (forPrompt E { policy with maxPromptTokenEstimate := none } t.items).entries =
      (buildEntries E policy 0 t.items {}).entries := by
    rw [← buildEntries_uncapped]
    rfl
  have hevents : (∀ item ∈ after, item.isContextEvent = false) ↔
      after.any TranscriptItem.isContextEvent = false := by
    rw [any_eq_false]
    exact forall₂_congr fun item _ => iff_of_eq (Bool.not_eq_true _).symm
  rw [hevents, LeavesRoom, hroom, forPrompt]
  cases hmax : policy.maxPromptTokenEstimate with
  | none =>
    obtain ⟨-, earlier, later, hentries, -, -⟩ := hrequested
    refine iff_of_true
      ⟨mem_map.mpr ⟨requestEntry E policy request.id content media, ?_, rfl⟩, hquiet.1⟩
      (.inr (by rintro _ ⟨⟩))
    exact hentries ▸ mem_append_right _ mem_cons_self
  | some maxTokens =>
    simp only [Option.some.injEq, forall_eq']
    -- Which rows are recorded as cut makes no difference to the messages.
    have hsame :
        ∀ entries truncated,
          (truncateToolOutputsForContextPressure E entries maxTokens truncated).1 =
        (truncateToolOutputsForContextPressure E entries maxTokens []).1 := by
      intro entries truncated
      rw [truncateToolOutputsForContextPressure, truncateToolOutputsForContextPressure]
      split_ifs <;> rfl
    rw [hsame]
    exact (hrequested.cut rfl maxTokens []).trim_iff rfl rfl maxTokens hquiet.1

/-- A request, and an event of the runtime after it. -/
def requestThenEvent : Transcript :=
  ⟨[⟨"u", .userInput "go on" [], none⟩,
    ⟨"e", .contextEvent .goalProgress "goal" "half done", none⟩], by decide⟩

/-- With little room the event takes the place of the request. -/
theorem event_displaces_request :
    let built := forPrompt ⟨0, fun _ => ""⟩ { maxPromptTokenEstimate := some 40 }
      requestThenEvent.items
    built.entries.map Entry.sourceItemIds = [[.item "e"]] ∧ built.dropped = [.item "u"] := by
  decide +kernel

/-- The same rows behind an older request. -/
def olderRequest : Transcript :=
  ⟨⟨"o", .userInput "Read the log from its first line to its last and report." [], none⟩ ::
    requestThenEvent.items, by decide⟩

/-- With room for the request and the event, the older request is removed and the newest stays. -/
theorem request_survives_olderRemoved :
    let policy : PromptBuildPolicy := { maxPromptTokenEstimate := some 60 }
    let built := forPrompt ⟨0, fun _ => ""⟩ policy olderRequest.items
    userMessage ⟨0, fun _ => ""⟩ policy "go on" [] ∈ built.messages ∧
      built.dropped = [.item "o"] := by
  intro policy built
  have hsplit : olderRequest.items =
      [⟨"o", .userInput "Read the log from its first line to its last and report." [], none⟩] ++
        ⟨"u", .userInput "go on" [], none⟩ ::
          [⟨"e", .contextEvent .goalProgress "goal" "half done", none⟩] := rfl
  refine ⟨((request_survives_iff hsplit rfl (by decide)).mpr (.inr fun maxTokens h => ?_)).1, ?_⟩
  · obtain rfl := Option.some.inj h
    decide +kernel
  · decide +kernel

end

end Octos.Context
