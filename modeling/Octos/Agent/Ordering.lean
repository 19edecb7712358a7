import Mathlib.Data.List.Induction
import Mathlib.Data.List.Nodup
import Octos.Agent.Repair
import Octos.Base.Blocks

/-!
# What the order pass does

A conversation is some tool rows and then blocks: a row of another role and the tool rows that
follow it directly. An assistant owns the rows of its block that it declares, and every other tool
row is stranded. No pass moves a row that is not a tool row, so ownership does not change while the
order pass runs. For each assistant in turn the pass collapses the rows that it owns, together with
the stranded rows that it declares, to one row for each id.

## Main results

* `repairMessageOrder_spec`: the blocks after the pass
* `attached_row`: the row that the pass attaches to an assistant for an id
-/

namespace Octos.Agent

open Block List Message

/-- A row of another role and the tool rows that follow it. -/
abbrev Seg := Block Message.isTool

abbrev Tools (rows : List Message) : Prop := ∀ m ∈ rows, m.isTool = true

variable {messages kept rows todo : List Message} {m h : Message} {id x : String}
  {ids D before : List String} {coll : Collected} {S : String → Prop} {pre : List Message}

/-! ## Owners -/

variable {k : ℕ}

theorem ownerFrom_append (hk : k ≤ kept.length) (l : List Message) (id : String) :
    ownerFrom (kept ++ l) id k = ownerFrom kept id k := by
  induction k with
  | zero => rfl
  | succ k ih => rw [ownerFrom, ownerFrom, getElem?_append_left hk, ih (by omega)]

/-- The owner of a row with this id right behind the list. -/
def owner (kept : List Message) (id : String) : Option ℕ := ownerFrom kept id kept.length

theorem owner_lt (h : owner kept id = some k) : k < kept.length := by
  have hlt : ∀ n, ownerFrom kept id n = some k → k < n := by
    intro n
    induction n with
    | zero => intro hn; cases hn
    | succ n ih =>
      intro hn
      rw [ownerFrom] at hn
      split at hn
      · cases hn
      · split_ifs at hn
        · exact Nat.lt_succ_of_lt (ih hn)
        · cases hn
          exact Nat.lt_succ_self _
  exact hlt _ h

theorem ownerFrom_succ (h : messages[k]? = some m) (id : String) :
    ownerFrom messages id (k + 1) =
      if m.isTool then ownerFrom messages id k else if id ∈ m.declares then some k else none := by
  rw [ownerFrom, h]
  by_cases htool : m.role = .tool
  · simp [isTool, htool]
  · by_cases hrole : m.role = .assistant <;> simp [isTool, declares, htool, hrole]

theorem owner_snoc (kept : List Message) (m : Message) (id : String) :
    owner (kept ++ [m]) id =
      if m.isTool then owner kept id else if id ∈ m.declares then some kept.length else none := by
  have hget : (kept ++ [m])[kept.length]? = some m := by simp
  rw [owner, length_append, length_singleton, ownerFrom_succ hget, ownerFrom_append le_rfl, owner]

theorem owner_append_tools (hrows : Tools rows) (id : String) :
    owner (kept ++ rows) id = owner kept id := by
  induction rows using List.reverseRecOn with
  | nil => simp
  | append_singleton rows m ih =>
    rw [← append_assoc, owner_snoc, if_pos (hrows m (by simp))]
    exact ih fun m' hm' => hrows m' (by simp [hm'])

theorem answer_eq (h : m.isTool = true) : m.answer = m.toolCallId := by
  simp only [isTool, decide_eq_true_eq] at h
  simp [answer, h]

theorem answer_head (h : m.isTool = false) : m.answer = none := by
  simp only [isTool, decide_eq_false_iff_not] at h
  simp [answer, h]

theorem ownerOf_eq (h : m.answer = some id) (kept todo : List Message) :
    ownerOf (kept ++ m :: todo) kept.length = owner kept id := by
  have hid : m.toolCallId = some id := by
    unfold answer at h
    split_ifs at h
    exact h
  have hget : (kept ++ m :: todo)[kept.length]? = some m := by simp
  rw [ownerOf, hget]
  simp only [hid]
  exact ownerFrom_append le_rfl ..

/-! ## The scan -/

/-- A row that answers one of some ids. -/
def Message.answers (ids : List String) (m : Message) : Bool := m.answer.any (· ∈ ids)

/-- A row of a block that answers one of some ids which the head does not declare. -/
def stray (ids : List String) (s : Seg) (m : Message) : Bool :=
  m.answer.any fun id => id ∈ ids ∧ id ∉ s.head.declares

/-- The entry of a row that is taken out. -/
def entry (m : Message) : String × Message := (m.toolCallId.getD "", m)

/-- Where the assistant at `i` stands when of the `n` rows from `start` on only `left` remain. -/
def Shift (start n left i i' : ℕ) : Prop :=
  (i < start ∧ i' = i) ∨ ∃ d, i = start + n + d ∧ i' = start + left + d

theorem Shift.split {start a b a' b' i i' : ℕ} (h : Shift start (a + b) (a' + b') i i') :
    ∃ j, Shift start a a' i j ∧ Shift (start + a') b b' j i' := by
  rcases h with ⟨hi, rfl⟩ | ⟨d, hi, hi'⟩
  · exact ⟨_, .inl ⟨hi, rfl⟩, .inl ⟨by omega, rfl⟩⟩
  · exact ⟨start + a' + (b + d), .inr ⟨b + d, by omega, rfl⟩, .inr ⟨d, by omega, by omega⟩⟩

/-- The scan reads the rows behind `kept`: then `kept'` is before it, and `out` has been taken
out. -/
def Scan (ids : List String) (i : ℕ) (kept rows : List Message) (i' : ℕ) (kept' : List Message)
    (out : Collected) : Prop :=
  ∀ (todo : List Message) (steps : ℕ) (coll : Collected) (ch : Bool), ∃ ch',
    gather ids (rows.length + steps) ⟨kept ++ rows ++ todo, i, coll, ch⟩ kept.length =
      gather ids steps ⟨kept' ++ todo, i', out ++ coll, ch'⟩ kept'.length

section

variable {i i' j : ℕ} {kept' mid rows' : List Message} {out out' : Collected}

theorem Scan.refl (hi : Shift kept.length 0 0 i i') : Scan ids i kept [] i' kept [] := by
  obtain rfl : i' = i := by
    rcases hi with ⟨-, h⟩ | ⟨d, h, h'⟩
    · exact h
    · exact h'.trans h.symm
  exact fun todo steps coll ch => ⟨ch, by simp⟩

theorem Scan.trans (h : Scan ids i kept rows j mid out) (h' : Scan ids j mid rows' i' kept' out') :
    Scan ids i kept (rows ++ rows') i' kept' (out' ++ out) := by
  intro todo steps coll ch
  obtain ⟨ch₁, h₁⟩ := h (rows' ++ todo) (rows'.length + steps) coll ch
  obtain ⟨ch₂, h₂⟩ := h' todo steps (out ++ coll) ch₁
  refine ⟨ch₂, ?_⟩
  rw [append_assoc] at h₂ ⊢
  rw [length_append, Nat.add_assoc, append_assoc rows, ← append_assoc kept, h₁, h₂, append_assoc]

/-- A row is passed if it answers none of the ids or has another owner. -/
theorem Scan.pass (h : ∀ id, m.answer = some id → id ∈ ids → ∃ k, owner kept id = some k ∧ k ≠ i) :
    Scan ids i kept [m] i (kept ++ [m]) [] := by
  intro todo steps coll ch
  refine ⟨ch, ?_⟩
  have hget : (kept ++ [m] ++ todo)[kept.length]? = some m := by simp
  rw [length_singleton, Nat.add_comm, gather, length_append]
  simp only [hget]
  by_cases hi : kept.length = i
  · rw [if_pos hi]
    rfl
  · rw [if_neg hi]
    cases hans : m.answer.filter (· ∈ ids) with
    | none => rfl
    | some id =>
      obtain ⟨hid, hmem⟩ : m.answer = some id ∧ id ∈ ids := by
        simpa [Option.filter_eq_some_iff] using hans
      obtain ⟨k, hk, hki⟩ := h id hid hmem
      simp [ownerOf_eq hid kept todo, hk, hki]

/-- A row is taken out if it answers one of the ids and has no other owner. -/
theorem Scan.take (hm : m.isTool = true) (hid : m.answer = some id) (hmem : id ∈ ids)
    (howner : ∀ k, owner kept id = some k → k = i) (hi : Shift kept.length 1 0 i i') :
    Scan ids i kept [m] i' kept [entry m] := by
  intro todo steps coll ch
  refine ⟨true, ?_⟩
  have hget : (kept ++ [m] ++ todo)[kept.length]? = some m := by simp
  have hentry : entry m = (id, m) := by
    rw [entry, ← answer_eq hm, hid]
    rfl
  have herase : (kept ++ m :: todo).eraseIdx kept.length = kept ++ todo := by
    rw [eraseIdx_append_of_length_le le_rfl]
    simp
  have hother : ¬ (owner kept id).any (· ≠ i) = true := by
    simpa [Option.any_eq_true] using howner
  have hne : kept.length ≠ i := by
    rcases hi with ⟨h, -⟩ | ⟨d, h, -⟩ <;> omega
  -- The assistant moves back by one if the row stood before it.
  have hback : (if kept.length < i then i - 1 else i) = i' := by
    rcases hi with ⟨h, rfl⟩ | ⟨d, h, rfl⟩
    · rw [if_neg (by omega)]
    · rw [if_pos (by omega)]
      omega
  rw [length_singleton, Nat.add_comm, gather]
  simp only [hget, if_neg hne]
  rw [show m.answer.filter (· ∈ ids) = some id by simp [hid, hmem]]
  simp only [append_assoc, singleton_append, ownerOf_eq hid kept todo]
  rw [if_neg hother, herase, hback, hentry]

theorem scan_rows {f : Message → Bool} (hrows : Tools rows)
    (hnone : ∀ m ∈ rows, m.answers ids = false → f m = false)
    (hsome : ∀ m ∈ rows, ∀ id, m.answer = some id → id ∈ ids →
      (f m = true ↔ ∀ k, owner kept id = some k → k = i))
    (hi : Shift kept.length rows.length (rows.filter (!f ·)).length i i') :
    Scan ids i kept rows i' (kept ++ rows.filter (!f ·)) ((rows.filter f).map entry).reverse := by
  induction rows generalizing kept i with
  | nil =>
    rw [filter_nil, append_nil]
    exact .refl hi
  | cons m rows ih =>
    obtain ⟨hm, hrows⟩ := forall_mem_cons.mp hrows
    obtain ⟨hnone, hnone'⟩ := forall_mem_cons.mp hnone
    obtain ⟨hsome, hsome'⟩ := forall_mem_cons.mp hsome
    rw [length_cons, Nat.add_comm] at hi
    cases hf : f m with
    | false =>
      -- A row that stays joins the rows before the scan; its role leaves the owners as they are.
      simp only [filter_cons, hf, Bool.not_false, if_true, Bool.false_eq_true, if_false,
        length_cons, Nat.add_comm _ 1] at hi ⊢
      obtain ⟨j, hj, hi'⟩ := hi.split
      obtain rfl : j = i := by
        rcases hj with ⟨-, h⟩ | ⟨d, h, h'⟩ <;> omega
      have hpass : Scan ids j kept [m] j (kept ++ [m]) [] := by
        refine .pass fun id hid hmem => ?_
        simpa [hf] using hsome id hid hmem
      have hrest := @ih (kept ++ [m]) j hrows hnone'
        (fun m' hm' id hid hmem => by
          rw [owner_snoc, if_pos hm]
          exact hsome' m' hm' id hid hmem) (by simpa using hi')
      simpa using hpass.trans hrest
    | true =>
      simp only [filter_cons, hf, Bool.not_true, Bool.false_eq_true, if_false, if_true] at hi ⊢
      rw [← Nat.zero_add (rows.filter _).length] at hi
      obtain ⟨j, hj, hi⟩ := hi.split
      obtain ⟨id, hid, hmem⟩ : ∃ id, m.answer = some id ∧ id ∈ ids := by
        by_contra hnot
        exact absurd (hnone (by simpa [answers, Option.any_eq_false] using hnot)) (by simp [hf])
      have howner := (hsome id hid hmem).mp hf
      have hrest := @ih kept j hrows hnone'
        (fun m' hm' id' hid' hmem' => by
          rw [hsome' m' hm' id' hid' hmem']
          refine forall_congr' fun k => imp_congr_right fun hk => ?_
          have hlt := owner_lt hk
          rcases hj with ⟨h, rfl⟩ | ⟨d, h, h'⟩
          · rfl
          · omega) hi
      simpa using (Scan.take hm hid hmem howner hj).trans hrest

/-- A block without the rows that answer some ids and are not of its head. -/
def loosen (ids : List String) (s : Seg) : Seg := s.keep (!stray ids s ·)

/-- The rows of some blocks that answer some ids and are not of their head. -/
def strays (ids : List String) (segs : List Seg) : List Message :=
  segs.flatMap fun s => s.rows.filter (stray ids s)

theorem answers_iff (h : m.answer = some x) : m.answers ids = true ↔ x ∈ ids := by
  simp [answers, h]

theorem stray_eq (ids : List String) (s : Seg) (m : Message) :
    stray ids s m = (m.answers ids && !m.answers s.head.declares) := by
  cases hans : m.answer with
  | none | some id => simp [stray, answers, hans]

theorem stray_iff {s : Seg} (h : m.answer = some x) :
    stray ids s m = true ↔ x ∈ ids ∧ x ∉ s.head.declares := by
  simp [stray, h]

theorem Scan.head (hh : h.isTool = false) : Scan ids i kept [h] i (kept ++ [h]) [] :=
  .pass fun id hid => by simp [answer_head hh] at hid

theorem scan_blocks {segs : List Seg}
    (hi : Shift kept.length (flat segs).length (flat (segs.map (loosen ids))).length i i') :
    Scan ids i kept (flat segs) i' (kept ++ flat (segs.map (loosen ids)))
      ((strays ids segs).map entry).reverse := by
  induction segs generalizing kept i with
  | nil =>
    rw [map_nil, flat_nil, append_nil]
    exact .refl hi
  | cons s segs ih =>
    have hne : kept.length ≠ i := by
      rcases hi with ⟨h, -⟩ | ⟨d, h, -⟩
      · omega
      · simp only [flat_cons, cons_append, length_cons] at h
        omega
    have hshift : Shift (kept ++ [s.head]).length (s.rows.length + (flat segs).length)
        ((s.rows.filter (!stray ids s ·)).length + (flat (segs.map (loosen ids))).length) i i' := by
      simp only [map_cons, flat_cons, cons_append, length_cons, length_append, loosen, keep] at hi
      simp only [length_append, length_singleton]
      rcases hi with ⟨h, h'⟩ | ⟨d, h, h'⟩
      · exact .inl ⟨by omega, h'⟩
      · exact .inr ⟨d, by omega, by omega⟩
    obtain ⟨j, hrows, hrest⟩ := hshift.split
    -- The head is passed, its strays are taken out, and the scan goes on behind what it keeps.
    have hselect : ∀ m ∈ s.rows, ∀ id, m.answer = some id → id ∈ ids →
        (stray ids s m = true ↔ ∀ k, owner (kept ++ [s.head]) id = some k → k = i) := by
      intro m _ id hid hmem
      rw [stray_iff hid, owner_snoc, s.head_not, if_neg (by decide)]
      by_cases hdecl : id ∈ s.head.declares
      · simp [hdecl, hne]
      · simp [hdecl, hmem]
    rw [← length_append] at hrest
    have h :=
      ((Scan.head s.head_not).trans (scan_rows s.rows_all (fun m _ hm => by simp [stray_eq, hm])
      hselect hrows)).trans (ih hrest)
    simpa [strays, loosen, keep] using h

/-- The rows that are taken out for an assistant: of the rows before every block, of the other
blocks and of its own. -/
def taken (ids : List String) (pre : List Message) (done : List Seg) (c : Seg) (after : List Seg) :
    List Message :=
  pre.filter (·.answers ids) ++ strays ids done ++ c.rows.filter (·.answers ids) ++ strays ids after

theorem scan_answers (hrows : Tools rows)
    (howner : ∀ id ∈ ids, ∀ k, owner kept id = some k → k = i)
    (hi : Shift kept.length rows.length (rows.filter (!·.answers ids)).length i i') :
    Scan ids i kept rows i' (kept ++ rows.filter (!·.answers ids))
      ((rows.filter (·.answers ids)).map entry).reverse := by
  refine scan_rows hrows (fun m _ hm => hm) (fun m _ id hid hmem => ?_) hi
  exact iff_of_true (by simp [answers, hid, hmem]) (howner id hmem)

end

variable {done after : List Seg} {c : Seg}

/-- **What a scan takes out.** -/
theorem gather_spec (hpre : Tools pre) (hids : ids = c.head.declares) (ch : Bool) :
    ∃ ch', gather ids (pre ++ flat done ++ flat (c :: after)).length
        ⟨pre ++ flat done ++ flat (c :: after), (pre ++ flat done).length, [], ch⟩ 0 =
      ⟨pre.filter (!·.answers ids) ++ flat (done.map (loosen ids)) ++
          c.head :: (c.rows.filter (!·.answers ids) ++ flat (after.map (loosen ids))),
        (pre.filter (!·.answers ids) ++ flat (done.map (loosen ids))).length,
        ((taken ids pre done c after).map entry).reverse, ch'⟩ := by
  set pre' := pre.filter (!·.answers ids) with hpre'
  set done' := flat (done.map (loosen ids)) with hdone'
  have h₁ :
      Scan ids (pre ++ flat done).length [] pre (pre'.length + (flat done).length) ([] ++ pre') _ :=
    scan_answers hpre nofun
      (.inr ⟨(flat done).length, by simp, by simp [hpre']⟩)
  have h₂ : Scan ids (pre'.length + (flat done).length) pre' (flat done) (pre' ++ done').length
      (pre' ++ done') _ := scan_blocks (.inr ⟨0, rfl, by simp [hdone']⟩)
  have h₃ : Scan ids (pre' ++ done').length (pre' ++ done' ++ [c.head]) c.rows
      (pre' ++ done').length _ _ :=
    scan_answers c.rows_all (fun id hid k hk => by
      rw [owner_snoc, c.head_not, if_neg (by decide), if_pos (hids ▸ hid)] at hk
      exact (Option.some.inj hk).symm) (.inl ⟨by simp, rfl⟩)
  have h₄ : Scan ids (pre' ++ done').length (pre' ++ done' ++ [c.head] ++
      c.rows.filter (!·.answers ids)) (flat after) (pre' ++ done').length _ _ :=
    scan_blocks (.inl ⟨by simp, rfl⟩)
  obtain ⟨ch', h⟩ := ((((h₁.trans h₂).trans (Scan.head c.head_not)).trans h₃).trans h₄) [] 0 [] ch
  refine ⟨ch', ?_⟩
  simpa [taken, gather] using h

theorem insertIdx_append_length {α : Type} (l r : List α) (a : α) :
    (l ++ r).insertIdx l.length a = l ++ a :: r := by
  induction l with
  | nil => simp
  | cons b l ih => simp [ih]

/-- **What is put back**: one row for each id that was taken out. -/
theorem reinsert_spec (hcoll : ∀ e ∈ coll, e.2.isTool = true ∧ e.2.answer = some e.1) :
    ∃ (blk : List Message) (placed : List String), reinsert ids coll (kept ++ todo) kept.length =
        (kept ++ blk ++ todo, (kept ++ blk).length) ∧ Tools blk ∧
      blk.map (·.answer) = placed.map some ∧ placed.Nodup ∧
      (∀ x, x ∈ placed ↔ x ∈ ids ∧ x ∈ coll.map Prod.fst) ∧
      ∀ m ∈ blk, ∀ x, m.answer = some x → coll.find? (·.1 = x) = some (x, m) := by
  -- On the ids: the first entry of an id is placed, and all entries of it are dropped.
  induction ids generalizing kept coll with
  | nil => exact ⟨[], [], by simp [reinsert], forall_mem_nil _, rfl, nodup_nil, by simp, by simp⟩
  | cons id ids ih =>
    rw [reinsert]
    cases hfind : coll.find? (·.1 = id) with
    | none =>
      have hnot : id ∉ coll.map Prod.fst := by
        rintro hmem
        obtain ⟨e, he, rfl⟩ := mem_map.mp hmem
        simpa using find?_eq_none.mp hfind e he
      obtain ⟨blk, placed, heq, htool, hmap, hnodup, hiff, hlast⟩ := @ih kept coll hcoll
      refine ⟨blk, placed, heq, htool, hmap, hnodup, fun x => ?_, hlast⟩
      rw [hiff, mem_cons, or_and_right]
      exact (or_iff_right fun ⟨hx, hmem⟩ => hnot (hx ▸ hmem)).symm
    | some e =>
      obtain ⟨k, m⟩ := e
      obtain rfl : k = id := by simpa using find?_some hfind
      have hmem : (k, m) ∈ coll := mem_of_find?_eq_some hfind
      have hinsert : (kept ++ todo).insertIdx kept.length m = kept ++ [m] ++ todo := by
        rw [insertIdx_append_length, append_assoc, singleton_append]
      obtain ⟨blk, placed, heq, htool, hmap, hnodup, hiff, hlast⟩ :=
        @ih (kept ++ [m]) (coll.filter (·.1 ≠ k)) fun e he => hcoll e (mem_filter.mp he).1
      have hkeys : ∀ x, x ∈ (coll.filter (·.1 ≠ k)).map Prod.fst ↔
          x ≠ k ∧ x ∈ coll.map Prod.fst := by
        intro x
        simp only [mem_map, mem_filter, decide_eq_true_eq]
        constructor
        · rintro ⟨e, ⟨he, hne⟩, rfl⟩
          exact ⟨hne, e, he, rfl⟩
        · rintro ⟨hne, e, he, rfl⟩
          exact ⟨e, ⟨he, hne⟩, rfl⟩
      refine ⟨m :: blk, k :: placed, ?_, ?_, ?_, ?_, fun x => ?_,
        forall_mem_cons.mpr ⟨fun x hx => ?_, fun m' hm' x hx => ?_⟩⟩
      · simp only
        rw [hinsert, show kept.length + 1 = (kept ++ [m]).length by simp, heq]
        simp
      · rintro m' (_ | ⟨_, hm'⟩)
        exacts [(hcoll _ hmem).1, htool m' hm']
      · rw [map_cons, map_cons, hmap, (hcoll _ hmem).2]
      · refine nodup_cons.mpr ⟨fun hk => ?_, hnodup⟩
        exact ((hkeys k).mp ((hiff k).mp hk).2).1 rfl
      · rw [mem_cons, hiff, hkeys, mem_cons]
        have hk : k ∈ coll.map Prod.fst := mem_map_of_mem hmem
        by_cases hx : x = k
        · subst hx
          exact iff_of_true (.inl rfl) ⟨.inl rfl, hk⟩
        · simp [hx]
      · obtain rfl : k = x := Option.some.inj ((hcoll _ hmem).2.symm.trans hx)
        exact hfind
      · have hlast := hlast m' hm' x hx
        have hne := of_decide_eq_true (mem_filter.mp (mem_of_find?_eq_some hlast)).2
        rw [find?_filter] at hlast
        rw [← hlast]
        congr 1
        funext e
        by_cases he : e.1 = x
        · simp [he, hne]
        · simp [he]

/-! ## The pass -/

/-- One row for each of some ids that the rows answer, the last such row. -/
structure Collapsed (ids : List String) (rows blk : List Message) : Prop where
  tool : ∀ m ∈ blk, m.isTool = true
  placed : ∃ placed : List String, blk.map (·.answer) = placed.map some ∧ placed.Nodup ∧
    ∀ x, x ∈ placed ↔ x ∈ ids ∧ ∃ m ∈ rows, m.answer = some x
  last : ∀ m ∈ blk, ∀ x, m.answer = some x → (rows.filter (·.answer = some x)).getLast? = some m

/-- An id that a row of a block answers whose head does not declare it. -/
def StraysIn (segs : List Seg) (x : String) : Prop :=
  ∃ s ∈ segs, x ∉ s.head.declares ∧ ∃ m ∈ s.rows, m.answer = some x

/-- An id that a stranded row answers: it comes before every block, or its head does not declare
it. -/
def Strays (pre : List Message) (segs : List Seg) (x : String) : Prop :=
  (∃ m ∈ pre, m.answer = some x) ∨ StraysIn segs x

/-- The rows of a block that its head does not declare, and none of some ids. -/
def leftover (D : List String) (s : Seg) : List Message :=
  s.rows.filter fun m => !m.answers s.head.declares && !m.answers D

/-- An id that the pass gives to the head of a block: the head declares it, and a row of the block
answers it, or a stranded row does that no earlier head has taken. -/
def Gets (S : String → Prop) (before : List String) (s : Seg) (x : String) : Prop :=
  x ∈ s.head.declares ∧ ((∃ m ∈ s.rows, m.answer = some x) ∨ (S x ∧ x ∉ before))

/-- What the pass leaves of a block when the ids of `D` are done: one row for each id that the head
gets, and the rows that no head has taken. -/
def Settled (S : String → Prop) (D before : List String) (s₀ s : Seg) : Prop :=
  s.head = s₀.head ∧ ∃ (blk : List Message) (placed : List String),
    s.rows = blk ++ leftover D s₀ ∧ blk.map (·.answer) = placed.map some ∧ placed.Nodup ∧
      ∀ x, x ∈ placed ↔ Gets S before s₀ x

/-- The blocks that are done, each with the ids that the heads before it declare. -/
inductive SettledAll (S : String → Prop) (D : List String) :
    List String → List Seg → List Seg → Prop
  | nil {before : List String} : SettledAll S D before [] []
  | cons {before : List String} {s₀ s : Seg} {t₀ t : List Seg} (hs : Settled S D before s₀ s)
    (ht : SettledAll S D (before ++ s₀.head.declares) t₀ t) :
    SettledAll S D before (s₀ :: t₀) (s :: t)

theorem answers_append (D ids : List String) (m : Message) :
    m.answers (D ++ ids) = (m.answers D || m.answers ids) := by
  cases hans : m.answer with
  | none | some id => simp [answers, hans]

variable {blk pre₀ : List Message} {placed : List String}

theorem answer_of_mem_placed (hmap : blk.map (·.answer) = placed.map some)
    (hm : m ∈ blk) : ∃ x ∈ placed, m.answer = some x := by
  have hmem : m.answer ∈ placed.map some := hmap ▸ mem_map_of_mem hm
  obtain ⟨x, hx, heq⟩ := mem_map.mp hmem
  exact ⟨x, hx, heq.symm⟩

theorem exists_answer_placed (hmap : blk.map (·.answer) = placed.map some) :
    (∃ m ∈ blk, m.answer = some x) ↔ x ∈ placed := by
  rw [← mem_map, hmap]
  simp

theorem exists_answer_filter {f : Message → Bool} {P : Prop}
    (hf : ∀ m, m.answer = some x → (f m = true ↔ P)) :
    (∃ m ∈ rows.filter f, m.answer = some x) ↔ (∃ m ∈ rows, m.answer = some x) ∧ P := by
  constructor
  · rintro ⟨m, hm, hans⟩
    obtain ⟨hm, hfm⟩ := mem_filter.mp hm
    exact ⟨⟨m, hm, hans⟩, (hf m hans).mp hfm⟩
  · rintro ⟨⟨m, hm, hans⟩, hP⟩
    exact ⟨m, mem_filter.mpr ⟨hm, (hf m hans).mpr hP⟩, hans⟩

/-- A test that every answer to an id passes does not touch the answers. -/
theorem filter_answer {f : Message → Bool} (hf : ∀ m, m.answer = some x → f m = true) :
    (rows.filter f).filter (·.answer = some x) = rows.filter (·.answer = some x) := by
  rw [filter_filter]
  refine filter_congr fun m _ => ?_
  by_cases hans : m.answer = some x
  · simp [hans, hf m hans]
  · simp [hans]

theorem declares_tool (h : m.isTool = true) : m.declares = [] := by
  simp only [isTool, decide_eq_true_eq] at h
  simp [declares, h]

theorem declaredIds_rows (h : Tools rows) : declaredIds rows = [] := by
  refine flatMap_eq_nil_iff.mpr fun m hm => declares_tool (h m hm)

theorem declaredIds_flat_cons (s : Seg) (segs : List Seg) :
    declaredIds (flat (s :: segs)) = s.head.declares ++ declaredIds (flat segs) := by
  rw [flat_cons, cons_append, declaredIds, flatMap_cons, flatMap_append]
  rw [show s.rows.flatMap (·.declares) = [] from declaredIds_rows s.rows_all]
  rfl

variable {t₀ t : List Seg}

theorem SettledAll.snoc {s₀ s : Seg} (ht : SettledAll S D before t₀ t)
    (hs : Settled S D (before ++ declaredIds (flat t₀)) s₀ s) :
    SettledAll S D before (t₀ ++ [s₀]) (t ++ [s]) := by
  induction ht with
  | nil => exact .cons (by simpa [declaredIds] using hs) .nil
  | @cons before r₀ r t₀ t hr ht ih =>
    refine .cons hr (ih ?_)
    rwa [declaredIds_flat_cons, ← append_assoc] at hs

theorem Settled.loosen {s₀ s : Seg} (h : Settled S D before s₀ s)
    (ids : List String) : Settled S (D ++ ids) before s₀ (loosen ids s) := by
  obtain ⟨hhead, blk, placed, hrows, hmap, hnodup, hiff⟩ := h
  refine ⟨hhead, blk, placed, ?_, hmap, hnodup, hiff⟩
  change (s.rows.filter (!stray ids s ·)) = _
  rw [hrows, filter_append]
  congr 1
  · refine filter_eq_self.mpr fun m hm => ?_
    obtain ⟨x, hx, hans⟩ := answer_of_mem_placed hmap hm
    simp [stray, hans, hhead, ((hiff x).mp hx).1]
  · rw [leftover, leftover, filter_filter]
    refine filter_congr fun m _ => ?_
    rw [answers_append, stray_eq, hhead]
    cases m.answers D <;> cases m.answers ids <;> cases m.answers s₀.head.declares <;> rfl

theorem SettledAll.loosen (h : SettledAll S D before t₀ t)
    (ids : List String) : SettledAll S (D ++ ids) before t₀ (t.map (loosen ids)) := by
  induction h with
  | nil => exact .nil
  | cons hs _ ih => exact .cons (hs.loosen ids) ih

theorem loosen_loosen (D ids : List String) (s : Seg) :
    loosen ids (loosen D s) = loosen (D ++ ids) s := by
  have hrows : (s.rows.filter (!stray D s ·)).filter (!stray ids s ·) =
      s.rows.filter (!stray (D ++ ids) s ·) := by
    rw [filter_filter]
    refine filter_congr fun m _ => ?_
    simp only [stray_eq, answers_append]
    cases m.answers D <;> cases m.answers ids <;> cases m.answers s.head.declares <;> rfl
  simp only [loosen, keep]
  congr 1

theorem straysIn_append {segs segs' : List Seg} :
    StraysIn (segs ++ segs') x ↔ StraysIn segs x ∨ StraysIn segs' x := by
  simp [StraysIn, or_and_right, exists_or]

variable {s : Seg} {segs : List Seg}

theorem straysIn_cons :
    StraysIn (s :: segs) x ↔
      (x ∉ s.head.declares ∧ ∃ m ∈ s.rows, m.answer = some x) ∨ StraysIn segs x := by
  simp [StraysIn]

theorem SettledAll.straysIn
    (h : SettledAll S D before t₀ t) : StraysIn t x ↔ StraysIn t₀ x ∧ x ∉ D := by
  induction h with
  | nil => simp [StraysIn]
  | @cons before s₀ s t₀ t hs _ ih =>
    obtain ⟨hhead, blk, placed, hrows, hmap, -, hiff⟩ := hs
    rw [straysIn_cons, straysIn_cons, ih, hhead, hrows, or_and_right, and_assoc]
    refine or_congr (and_congr_right fun hx => ?_) Iff.rfl
    simp only [mem_append, or_and_right, exists_or, exists_answer_placed hmap, hiff]
    refine (or_iff_right fun h => hx h.1).trans ?_
    exact exists_answer_filter fun m hans => by simp [answers, hans, hx]

theorem straysIn_loosen : StraysIn (segs.map (loosen D)) x ↔ StraysIn segs x ∧ x ∉ D := by
  induction segs with
  | nil => simp [StraysIn]
  | cons s segs ih =>
    rw [map_cons, straysIn_cons, straysIn_cons, ih, or_and_right, and_assoc]
    refine or_congr (and_congr_right fun (hx : x ∉ s.head.declares) => ?_) Iff.rfl
    exact exists_answer_filter fun m hans => by simp [stray, hans, hx]

theorem taken_answers (hx : x ∈ ids) :
    (∃ m ∈ taken ids pre done c after, m.answer = some x) ↔
      Strays pre (done ++ after) x ∨ ∃ m ∈ c.rows, m.answer = some x := by
  have hrows : ∀ l : List Message, (∃ m ∈ l.filter (·.answers ids), m.answer = some x) ↔
      ∃ m ∈ l, m.answer = some x := fun l =>
    (exists_answer_filter fun m hans => answers_iff hans).trans (and_iff_left hx)
  have hsegs : ∀ segs : List Seg, (∃ m ∈ strays ids segs, m.answer = some x) ↔ StraysIn segs x := by
    intro segs
    induction segs with
    | nil => simp [strays, StraysIn]
    | cons s segs ih =>
      rw [straysIn_cons, ← ih, and_comm, strays, flatMap_cons]
      simp only [mem_append, or_and_right, exists_or]
      refine or_congr (exists_answer_filter fun m hans => ?_) Iff.rfl
      simp [stray_iff hans, hx]
  simp only [taken, mem_append, or_and_right, exists_or, hrows, hsegs, Strays, straysIn_append]
  exact or_right_comm.trans (or_congr or_assoc Iff.rfl)

theorem hasToolCalls_tool (h : m.isTool = true) : m.hasToolCalls = false := by
  simp [hasToolCalls, declares_tool h]

theorem callIds_eq (h : m.hasToolCalls = true) : m.callIds = m.declares := by
  simp only [hasToolCalls, declares] at h ⊢
  split_ifs at h ⊢ with hrole
  · rfl
  · exact absurd h (by decide)

theorem repairOrderFrom_rows (hrows : Tools rows) (steps : ℕ) (ch : Bool) :
    repairOrderFrom (rows.length + steps) (kept ++ rows ++ todo) kept.length ch =
      repairOrderFrom steps (kept ++ rows ++ todo) (kept ++ rows).length ch := by
  induction rows generalizing kept with
  | nil => simp
  | cons m rows ih =>
    have hget : (kept ++ m :: rows ++ todo)[kept.length]? = some m := by simp
    have hstep : (m :: rows).length + steps = (rows.length + steps) + 1 := by
      simp only [length_cons]
      omega
    rw [hstep, repairOrderFrom]
    simp only [hget, hasToolCalls_tool (hrows m mem_cons_self), Bool.false_eq_true, if_false]
    have h := @ih (kept ++ [m]) fun m' hm' => hrows m' (mem_cons_of_mem m hm')
    simpa using h

theorem repairOrderFrom_end (steps : ℕ) (messages : List Message) (ch : Bool) :
    repairOrderFrom steps messages messages.length ch = (messages, ch) := by
  cases steps with
  | zero => rfl
  | succ steps => simp [repairOrderFrom]

theorem length_flat_loosen_le (ids : List String) (segs : List Seg) :
    (flat (segs.map (loosen ids))).length ≤ (flat segs).length := by
  induction segs with
  | nil => simp
  | cons s =>
    have hrows : (loosen ids s).rows.length ≤ s.rows.length := length_filter_le ..
    simp only [map_cons, flat_cons, cons_append, length_cons, length_append]
    omega

theorem filter_answers (D ids : List String) (pre : List Message) :
    (pre.filter (!·.answers D)).filter (!·.answers ids) = pre.filter (!·.answers (D ++ ids)) := by
  rw [filter_filter]
  refine filter_congr fun m _ => ?_
  rw [answers_append, Bool.not_or, Bool.and_comm]

theorem leftover_eq (s : Seg) : (loosen D s).rows.filter (!·.answers s.head.declares) =
    leftover (D ++ s.head.declares) s := by
  rw [loosen, keep, leftover, filter_filter]
  refine filter_congr fun m _ => ?_
  rw [answers_append, stray_eq]
  cases m.answers D <;> cases m.answers s.head.declares <;> rfl

theorem taken_isTool (hpre : Tools pre) (hm : m ∈ taken ids pre done c after) :
    m.isTool = true ∧ ∃ x, m.answer = some x := by
  have hanswers : m.answers ids = true → ∃ x, m.answer = some x := fun h =>
    (Option.any_eq_true _ _ |>.mp h).imp fun x hx => hx.1
  have hstrays : ∀ segs : List Seg, m ∈ strays ids segs → m.isTool = true ∧
      ∃ x, m.answer = some x := by
    intro segs h
    obtain ⟨s, -, h⟩ := mem_flatMap.mp h
    obtain ⟨h, hstray⟩ := mem_filter.mp h
    rw [stray_eq, Bool.and_eq_true] at hstray
    exact ⟨s.rows_all m h, hanswers hstray.1⟩
  simp only [taken, mem_append] at hm
  rcases hm with ((hm | hm) | hm) | hm
  · obtain ⟨hm, h⟩ := mem_filter.mp hm
    exact ⟨hpre m hm, hanswers h⟩
  · exact hstrays done hm
  · obtain ⟨hm, h⟩ := mem_filter.mp hm
    exact ⟨c.rows_all m hm, hanswers h⟩
  · exact hstrays after hm

/-- **One step of the walk at an assistant with calls.** -/
theorem repairOrderFrom_assistant (hpre : Tools pre) (hcalls : c.head.hasToolCalls = true)
    (hids : ids = c.head.declares) (steps : ℕ) (ch : Bool) :
    ∃ (blk : List Message) (ch' : Bool),
      repairOrderFrom (steps + 1) (pre ++ flat done ++ flat (c :: after)) (pre ++ flat done).length
          ch =
        repairOrderFrom steps
          (pre.filter (!·.answers ids) ++ flat (done.map (loosen ids)) ++ [c.head] ++ blk ++
            (c.rows.filter (!·.answers ids) ++ flat (after.map (loosen ids))))
          (pre.filter (!·.answers ids) ++ flat (done.map (loosen ids)) ++ [c.head] ++ blk).length
          ch' ∧
      Collapsed ids (taken ids pre done c after) blk := by
  obtain ⟨ch', hgather⟩ := @gather_spec ids pre done after c hpre hids ch
  set pre' := pre.filter (!·.answers ids)
  set done' := flat (done.map (loosen ids))
  have hentry : ∀ m ∈ taken ids pre done c after,
      m.isTool = true ∧ m.answer = some (entry m).1 := by
    intro m hm
    obtain ⟨htool, x, hx⟩ := taken_isTool hpre hm
    refine ⟨htool, ?_⟩
    rw [entry, ← answer_eq htool, hx]
    rfl
  have hcoll : ∀ e ∈ ((taken ids pre done c after).map entry).reverse,
      e.2.isTool = true ∧ e.2.answer = some e.1 := by
    intro e he
    obtain ⟨m, hm, rfl⟩ := mem_map.mp (mem_reverse.mp he)
    exact hentry m hm
  -- What was gathered stands in reverse, so the last row of an id is placed.
  obtain ⟨blk, placed, hins, htool, hmap, hnodup, hiff, hlast⟩ :=
    @reinsert_spec (pre' ++ done' ++ [c.head])
      (c.rows.filter (!·.answers ids) ++ flat (after.map (loosen ids))) ids _ hcoll
  refine ⟨blk, ch', ?_, htool, ⟨placed, hmap, hnodup, fun x => ?_⟩, fun m hm x hx => ?_⟩
  · have hget : (pre ++ flat done ++ flat (c :: after))[(pre ++ flat done).length]? =
        some c.head := by simp
    have hpos : (pre' ++ done').length + 1 = (pre' ++ done' ++ [c.head]).length := by
      simp only [length_append, length_singleton]
    rw [repairOrderFrom]
    simp only [hget, hcalls, if_true, callIds_eq hcalls, ← hids, hgather]
    rw [append_cons, hpos, hins]
  · rw [hiff, map_reverse, mem_reverse, map_map, mem_map]
    refine and_congr_right fun _ => exists_congr fun m => and_congr_right fun hm => ?_
    rw [Function.comp_apply, (hentry m hm).2, Option.some.injEq]
  · have hlast := hlast m hm x hx
    rw [← map_reverse, find?_map] at hlast
    obtain ⟨m', hm', heq⟩ := Option.map_eq_some_iff.mp hlast
    obtain rfl : m' = m := (Prod.mk.inj heq).2
    rw [← hm', ← getLast?_filter]
    refine congrArg getLast? (filter_congr fun m'' hm'' => ?_)
    rw [(hentry m'' hm'').2, Function.comp_apply]
    simp

theorem declaredIds_flat_snoc (segs : List Seg) (s : Seg) :
    declaredIds (flat (segs ++ [s])) = declaredIds (flat segs) ++ s.head.declares := by
  rw [flat_append, declaredIds, flatMap_append]
  congr 1
  change declaredIds (flat [s]) = _
  rw [declaredIds_flat_cons]
  simp [declaredIds]

theorem settled_of_not_hasToolCalls
    (h : s.head.hasToolCalls = false) : Settled S D before s (loosen D s) := by
  have hdecl : s.head.declares = [] := by simpa [hasToolCalls] using h
  refine ⟨rfl, [], [], ?_, rfl, nodup_nil, fun x => ?_⟩
  · refine filter_congr fun m _ => ?_
    simp [stray_eq, answers, hdecl]
  · simp [Gets, hdecl]

theorem strays_ahead {done₀ done after₀ : List Seg} {c₀ : Seg} (h : SettledAll S D [] done₀ done)
    (hx : x ∈ c₀.head.declares) :
    Strays (pre₀.filter (!·.answers D)) (done ++ after₀.map (loosen D)) x ↔
      Strays pre₀ (done₀ ++ c₀ :: after₀) x ∧ x ∉ D := by
  have hpre : (∃ m ∈ pre₀.filter (!·.answers D), m.answer = some x) ↔
      (∃ m ∈ pre₀, m.answer = some x) ∧ x ∉ D :=
    exists_answer_filter fun m hans => by simp [answers, hans]
  have hc : ¬ (x ∉ c₀.head.declares ∧ ∃ m ∈ c₀.rows, m.answer = some x) := fun h => h.1 hx
  rw [Strays, Strays, hpre, straysIn_append, straysIn_append, h.straysIn, straysIn_loosen,
    straysIn_cons, or_iff_right hc, or_and_right, or_and_right]

theorem own_loosen (hx : x ∈ s.head.declares) :
    (∃ m ∈ (loosen D s).rows, m.answer = some x) ↔ ∃ m ∈ s.rows, m.answer = some x :=
  (exists_answer_filter fun m hans => by simp [stray, hans, hx]).trans (and_iff_left trivial)

theorem flat_snoc (segs : List Seg) (s : Seg) :
    flat (segs ++ [s]) = flat segs ++ [s.head] ++ s.rows := by
  simp

/-- An invariant of the blocks that are done: the walk passes a head without calls, and collapses
the rows of a head with calls. -/
structure Walks (pre₀ : List Message) (segs₀ : List Seg)
    (I : List String → List Seg → List Seg → Prop) : Prop where
  start : I [] [] []
  pass : ∀ {D done₀ done c after₀}, done₀ ++ c :: after₀ = segs₀ → c.head.hasToolCalls = false →
    I D done₀ done → I D (done₀ ++ [c]) (done ++ [loosen D c])
  call : ∀ {D done₀ done after₀ c₀ c blk}, done₀ ++ c₀ :: after₀ = segs₀ →
    D = declaredIds (flat done₀) → I D done₀ done →
    Collapsed c₀.head.declares (taken c₀.head.declares (pre₀.filter (!·.answers D)) done
      (loosen D c₀) (after₀.map (loosen D))) blk →
    c.head = c₀.head → c.rows = blk ++ leftover (D ++ c₀.head.declares) c₀ →
    I (D ++ c₀.head.declares) (done₀ ++ [c₀]) (done.map (loosen c₀.head.declares) ++ [c])

theorem repairOrderFrom_blocks {segs₀ : List Seg} {I : List String → List Seg → List Seg → Prop}
    (hpre : Tools pre₀) (hI : Walks pre₀ segs₀ I) {after₀ done₀ done : List Seg}
    {steps : ℕ} {ch : Bool} (hsegs : done₀ ++ after₀ = segs₀) (hD : D = declaredIds (flat done₀))
    (hdone : I D done₀ done) (hsteps : (flat (after₀.map (loosen D))).length ≤ steps) :
    ∃ segs ch', repairOrderFrom steps
        (pre₀.filter (!·.answers D) ++ flat done ++ flat (after₀.map (loosen D)))
        (pre₀.filter (!·.answers D) ++ flat done).length ch =
      (pre₀.filter (!·.answers (declaredIds (flat segs₀))) ++ flat segs, ch') ∧
      I (declaredIds (flat segs₀)) segs₀ segs := by
  induction after₀ generalizing D done₀ done steps ch with
  | nil =>
    rw [append_nil] at hsegs
    subst hsegs hD
    refine ⟨done, ch, ?_, hdone⟩
    simp only [map_nil, flat_nil, append_nil]
    exact repairOrderFrom_end ..
  | cons c₀ after₀ ih =>
    have hnext : (done₀ ++ [c₀]) ++ after₀ = segs₀ := by rw [← hsegs]; simp
    have hD' : D ++ c₀.head.declares = declaredIds (flat (done₀ ++ [c₀])) := by
      rw [declaredIds_flat_snoc, hD]
    have hpre' : ∀ m ∈ pre₀.filter (!·.answers D), m.isTool = true := fun m hm =>
      hpre m (mem_filter.mp hm).1
    obtain ⟨n, rfl⟩ : ∃ n, steps = n + 1 := by
      simp only [map_cons, flat_cons, cons_append, length_cons] at hsteps
      exact ⟨steps - 1, by omega⟩
    have hlen : (loosen D c₀).rows.length + (flat (after₀.map (loosen D))).length ≤ n := by
      simp only [map_cons, flat_cons, cons_append, length_cons, length_append] at hsteps
      omega
    rw [map_cons]
    cases hcalls : c₀.head.hasToolCalls with
    | false =>
      have hdecl : c₀.head.declares = [] := by simpa [hasToolCalls] using hcalls
      rw [hdecl, append_nil] at hD'
      obtain ⟨k, rfl⟩ : ∃ k, n = (loosen D c₀).rows.length + k := ⟨n - (loosen D c₀).rows.length, by
        omega⟩
      obtain ⟨segs, ch', hrun, hall⟩ := @ih D (done₀ ++ [c₀]) (done ++ [loosen D c₀]) k ch hnext hD'
        (hI.pass hsegs hcalls hdone) (by omega)
      refine ⟨segs, ch', ?_, hall⟩
      rw [repairOrderFrom]
      have hget : (pre₀.filter (!·.answers D) ++ flat done ++
          flat (loosen D c₀ :: after₀.map (loosen D)))[(pre₀.filter (!·.answers D) ++
          flat done).length]? = some c₀.head := by
        simp [loosen, keep]
      simp only [hget, hcalls, Bool.false_eq_true, if_false]
      have hskip := @repairOrderFrom_rows (pre₀.filter (!·.answers D) ++ flat done ++ [c₀.head])
        (loosen D c₀).rows (flat (after₀.map (loosen D))) (loosen D c₀).rows_all k ch
      rw [flat_snoc, ← append_assoc, ← append_assoc] at hrun
      rw [← hrun]
      rw [length_append, length_singleton] at hskip
      rw [flat_cons, cons_append, append_cons, ← append_assoc]
      exact hskip
    | true =>
      set ids := c₀.head.declares
      obtain ⟨blk, ch₁, hstep, hblk⟩ := @repairOrderFrom_assistant ids (pre₀.filter (!·.answers D))
        done (after₀.map (loosen D)) (loosen D c₀) hpre' hcalls rfl n ch
      rw [show (loosen D c₀).head = c₀.head from rfl] at hstep
      have hafter : (after₀.map (loosen D)).map (loosen ids) = after₀.map (loosen (D ++ ids)) := by
        rw [map_map]
        exact map_congr_left fun s _ => loosen_loosen D ids s
      have hleft : (loosen D c₀).rows.filter (!·.answers ids) = leftover (D ++ ids) c₀ :=
        leftover_eq c₀
      have hshort : (leftover (D ++ ids) c₀).length ≤ (loosen D c₀).rows.length :=
        hleft ▸ length_filter_le ..
      have hahead := length_flat_loosen_le ids (after₀.map (loosen D))
      rw [hafter] at hahead
      obtain ⟨k, rfl⟩ : ∃ k, n = (leftover (D ++ ids) c₀).length + k :=
        ⟨n - (leftover (D ++ ids) c₀).length, by omega⟩
      have htools : ∀ m ∈ leftover (D ++ ids) c₀, m.isTool = true := fun m hm =>
        c₀.rows_all m (mem_filter.mp hm).1
      -- The block as the walk leaves it: the rows put back and what the head does not declare.
      let c : Seg := ⟨c₀.head, blk ++ leftover (D ++ ids) c₀, c₀.head_not, fun m hm =>
        (mem_append.mp hm).elim (hblk.tool m) (htools m)⟩
      obtain ⟨segs, ch', hrun, hall⟩ := @ih (D ++ ids) (done₀ ++ [c₀])
        (done.map (loosen ids) ++ [c]) k ch₁ hnext hD'
        (hI.call hsegs hD hdone hblk rfl rfl) (by omega)
      refine ⟨segs, ch', ?_, hall⟩
      have hskip := @repairOrderFrom_rows (pre₀.filter (!·.answers (D ++ ids)) ++
        flat (done.map (loosen ids)) ++ [c₀.head] ++ blk) (leftover (D ++ ids) c₀)
        (flat (after₀.map (loosen (D ++ ids)))) htools k ch₁
      rw [hstep, ← hrun]
      rw [hafter, hleft, filter_answers, flat_snoc, ← append_assoc]
      rw [hskip]
      simp [c]

/-- **What the walk keeps holds after the pass.** -/
theorem Walks.repairMessageOrder {I : List String → List Seg → List Seg → Prop}
    (hI : Walks pre segs I) (hpre : Tools pre) :
    ∃ segs', (repairMessageOrder (pre ++ flat segs)).1 =
        pre.filter (!·.answers (declaredIds (flat segs))) ++ flat segs' ∧
      I (declaredIds (flat segs)) segs segs' := by
  have hloosen : segs.map (loosen []) = segs := by
    refine (map_congr_left fun s _ => ?_).trans (map_id segs)
    have hrows : s.rows.filter (!stray [] s ·) = s.rows := by
      refine filter_eq_self.mpr fun m _ => ?_
      simp [stray_eq, answers]
    simp only [loosen, keep, hrows]
    rfl
  have hkeep : pre.filter (!·.answers []) = pre := by
    refine filter_eq_self.mpr fun m _ => ?_
    simp [answers]
  obtain ⟨segs', ch', hrun, hall⟩ := @repairOrderFrom_blocks [] pre segs I hpre hI segs [] []
    (flat segs).length false rfl rfl hI.start (by rw [hloosen])
  refine ⟨segs', ?_, hall⟩
  rw [hloosen, hkeep] at hrun
  have hskip := @repairOrderFrom_rows [] pre (flat segs) hpre (flat segs).length false
  rw [Agent.repairMessageOrder, length_append]
  simp only [nil_append, length_nil, flat_nil, append_nil] at hskip hrun
  rw [hskip, hrun]

/-- **The blocks after the order pass**: the rows before every block and the rows that no head
declares stay, and each head has one row for each id that it gets. -/
theorem repairMessageOrder_spec (hpre : Tools pre) :
    ∃ segs', (repairMessageOrder (pre ++ flat segs)).1 =
        pre.filter (!·.answers (declaredIds (flat segs))) ++ flat segs' ∧
      SettledAll (Strays pre segs) (declaredIds (flat segs)) [] segs segs' := by
  have hI : Walks pre segs fun D done₀ done => D = declaredIds (flat done₀) ∧
      SettledAll (Strays pre segs) D [] done₀ done := by
    refine ⟨⟨rfl, .nil⟩, ?_, ?_⟩
    · rintro D done₀ done c after₀ - hcalls ⟨hD, hdone⟩
      have hdecl : c.head.declares = [] := by simpa [hasToolCalls] using hcalls
      refine ⟨by rw [declaredIds_flat_snoc, hdecl, append_nil, hD], hdone.snoc ?_⟩
      exact settled_of_not_hasToolCalls hcalls
    · rintro D done₀ done after₀ c₀ c blk hsegs hD ⟨-, hdone⟩ ⟨-, ⟨placed, hmap, hnodup, hiff⟩, -⟩
        hhead hrows
      refine ⟨by rw [declaredIds_flat_snoc, hD], (hdone.loosen c₀.head.declares).snoc ?_⟩
      refine ⟨hhead, blk, placed, hrows, hmap, hnodup, fun x => ?_⟩
      rw [hiff]
      refine and_congr_right fun (hx : x ∈ c₀.head.declares) => ?_
      rw [taken_answers hx, strays_ahead hdone hx, hsegs, own_loosen hx, nil_append, ← hD, or_comm]
  obtain ⟨segs', heq, -, hall⟩ := hI.repairMessageOrder hpre
  exact ⟨segs', heq, hall⟩

/-! ## The row of a call -/

theorem Collapsed.filter_eq (h : Collapsed ids rows blk) (hx : x ∈ ids)
    (hm : (rows.filter (·.answer = some x)).getLast? = some m) :
    blk.filter (·.answer = some x) = [m] := by
  obtain ⟨placed, hmap, hnodup, hiff⟩ := h.placed
  have hmem := mem_of_getLast? hm
  have hplaced : x ∈ placed := (hiff x).mpr ⟨hx, m, by simpa using hmem⟩
  have hlen : (blk.filter (·.answer = some x)).length = 1 := by
    have hcount : (placed.map some).countP (· = some x) = placed.count x := by
      rw [countP_map]
      exact countP_congr fun y _ => by simp
    rw [← count_eq_one_of_mem hnodup hplaced, ← hcount, ← hmap, countP_map, countP_eq_length_filter]
    rfl
  obtain ⟨m', hm'⟩ := length_eq_one_iff.mp hlen
  have hmem' : m' ∈ blk.filter (·.answer = some x) := hm' ▸ mem_singleton_self m'
  obtain ⟨hblk, hans⟩ := mem_filter.mp hmem'
  rw [hm', Option.some.inj ((h.last m' hblk x (of_decide_eq_true hans)).symm.trans hm)]

/-- The row that the pass attaches to a head for an id that only the row `r` of its block answers:
the last stranded row behind the block, unless an earlier head has taken those. -/
def attached (done after : List Seg) (x : String) (r : Message) : Message :=
  if x ∈ declaredIds (flat done) then r else (strays [x] after).getLast?.getD r

theorem filter_strays_loosen (hx : x ∈ ids) (segs : List Seg) :
    (strays ids (segs.map (loosen D))).filter (·.answer = some x) =
      if x ∈ D then [] else strays [x] segs := by
  have hrows : ∀ s : Seg, ((loosen D s).rows.filter (stray ids (loosen D s))).filter
      (·.answer = some x) = s.rows.filter fun m => x ∉ D ∧ stray [x] s m = true := by
    intro s
    rw [loosen, keep, filter_filter, filter_filter]
    refine filter_congr fun m _ => ?_
    by_cases hans : m.answer = some x
    · by_cases hs : x ∈ s.head.declares <;> simp [stray, hans, hx, hs]
    · have hstray : stray [x] s m = false := by
        cases h : m.answer with
        | none => simp [stray, h]
        | some y => simp_all [stray]
      simp [hans, hstray]
  rw [strays, filter_flatMap, flatMap_map, strays]
  simp only [hrows]
  split_ifs with hD <;> simp [hD]

theorem getLast?_taken {r : Message} (hx : x ∈ c.head.declares)
    (hr : c.rows.filter (·.answer = some x) = [r]) :
    ((taken c.head.declares pre done (loosen D c) (after.map (loosen D))).filter
      (·.answer = some x)).getLast? =
      some (if x ∈ D then r else (strays [x] after).getLast?.getD r) := by
  have hown : ((loosen D c).rows.filter (·.answers c.head.declares)).filter (·.answer = some x) =
      [r] := by
    rw [← hr, filter_answer fun m hans => by simp [answers, hans, hx], loosen, keep,
      filter_answer fun m hans => by simp [stray, hans, hx]]
  rw [taken, filter_append, filter_append, hown, filter_strays_loosen hx, getLast?_append,
    getLast?_append]
  split_ifs
  · rfl
  · cases (strays [x] after).getLast? <;> rfl

/-- **The row of a call.** A row that alone answers a call in the block of its assistant stays the
one row attached to it, whatever the other assistants declare, unless a stranded row with its id
comes behind the block and no earlier assistant declares the id: then the last such row replaces
it. -/
theorem attached_row {done after : List Seg} {c : Seg} {r : Message}
    (hpre : ∀ m ∈ pre, m.isTool = true) (hx : x ∈ c.head.declares)
    (hr : c.rows.filter (·.answer = some x) = [r]) :
    ∃ (pre' : List Message) (done' : List Seg) (c' : Seg) (after' : List Seg),
      (repairMessageOrder (pre ++ flat (done ++ c :: after))).1 =
        pre' ++ flat (done' ++ c' :: after') ∧ (∀ m ∈ pre', m.isTool = true) ∧
      done'.map (·.head) = done.map (·.head) ∧ c'.head = c.head ∧
      c'.rows.filter (·.answer = some x) = [attached done after x r] := by
  -- The walk keeps: once it has passed the block, its row for `x` is the attached one.
  have hI : Walks pre (done ++ c :: after) fun D d₀ d => d.map (·.head) = d₀.map (·.head) ∧
      (done.length < d₀.length → ∃ l c' l', d = l ++ c' :: l' ∧ l.length = done.length ∧
        x ∈ c'.head.declares ∧ c'.rows.filter (·.answer = some x) = [attached done after x r]) := by
    refine ⟨⟨rfl, by simp⟩, ?_, ?_⟩
    · rintro D d₀ d c₀ a₀ hsegs hcalls ⟨hheads, hd⟩
      refine ⟨by simp [hheads, loosen, keep], fun hlt => ?_⟩
      rcases Nat.lt_succ_iff_lt_or_eq.mp (by simpa using hlt) with hlt | hlen
      · obtain ⟨l, c', l', rfl, hl⟩ := hd hlt
        exact ⟨l, c', l' ++ [loosen D c₀], by simp, hl⟩
      · obtain ⟨-, hc⟩ := append_inj hsegs hlen.symm
        cases hc
        simp [hasToolCalls, ne_nil_of_mem hx] at hcalls
    · rintro D d₀ d a₀ c₀ c₁ blk hsegs hD ⟨hheads, hd⟩ hblk hhead hrows
      refine ⟨?_, fun hlt => ?_⟩
      · rw [map_append, map_append, map_map, ← hheads, map_singleton, map_singleton, hhead]
        rfl
      rcases Nat.lt_succ_iff_lt_or_eq.mp (by simpa using hlt) with hlt | hlen
      · -- The block is done: what a later head takes is stranded.
        obtain ⟨l, c', l', rfl, hl, hx', hrow⟩ := hd hlt
        refine ⟨l.map (loosen c₀.head.declares), loosen c₀.head.declares c',
          l'.map (loosen c₀.head.declares) ++ [c₁], by simp, by simpa using hl, hx', ?_⟩
        rw [← hrow, loosen, keep, filter_answer fun m hans => by simp [stray, hans, hx']]
      · obtain ⟨rfl, hc⟩ := append_inj hsegs hlen.symm
        obtain ⟨rfl, rfl⟩ := cons.inj hc
        refine ⟨d.map (loosen c₀.head.declares), c₁, [], rfl, ?_, hhead ▸ hx, ?_⟩
        · simpa using congrArg length hheads
        · have hleft : (leftover (D ++ c₀.head.declares) c₀).filter (·.answer = some x) = [] := by
            rw [leftover, filter_filter, filter_eq_nil_iff]
            intro m _
            by_cases hans : m.answer = some x <;> simp [hans, answers, hx]
          rw [hrows, filter_append, hblk.filter_eq hx (getLast?_taken hx hr), attached, ← hD, hleft,
            append_nil]
  obtain ⟨segs', heq, hheads, hd⟩ := hI.repairMessageOrder hpre
  obtain ⟨l, c', l', rfl, hlen, -, hrow⟩ := hd (by simp)
  rw [map_append, map_append, map_cons, map_cons] at hheads
  obtain ⟨hl, hc⟩ := append_inj hheads (by simpa using hlen)
  exact ⟨_, l, c', l', heq, fun m hm => hpre m (mem_filter.mp hm).1, hl, (cons.inj hc).1, hrow⟩

def bareRow (role : MessageRole) (calls : Option (List ToolCall)) (id : Option String) : Message :=
  ⟨role, "", [], calls, id, none, none, none, 0, none, none⟩

/-- An assistant that calls a tool under some ids. -/
def assistantRow (ids : List String) : Message :=
  bareRow .assistant (some (ids.map fun id => ⟨id, "read", .null⟩)) none

def toolRow (id : String) : Message := bareRow .tool none (some id)

/-- A result for the id `x`. -/
def resultRow (text : String) : Message := { toolRow "x" with content := text }

/-- A row with a result for `x` behind it. -/
def followed (head : Message) (hhead : head.isTool = false) (text : String) : Seg :=
  ⟨head, [resultRow text], hhead, by simp [resultRow, toolRow, bareRow, isTool]⟩

/-- Two assistants call under `x` and a third result is stranded behind a user's row. The second
assistant keeps its own result. -/
theorem attached_row_reusedId :
    let old := followed (assistantRow ["x"]) rfl "old"
    let c := followed (assistantRow ["x"]) rfl "first"
    let user := followed (bareRow .user none none) rfl "second"
    ∃ (pre' : List Message) (done' : List Seg) (c' : Seg) (after' : List Seg),
      (repairMessageOrder (flat [old, c, user])).1 = pre' ++ flat (done' ++ c' :: after') ∧
        done'.map (·.head) = [assistantRow ["x"]] ∧ c'.head = assistantRow ["x"] ∧
        c'.rows.filter (·.answer = some "x") = [resultRow "first"] := by
  intro old c user
  have hx : "x" ∈ c.head.declares := by decide
  have hr : c.rows.filter (·.answer = some "x") = [resultRow "first"] := rfl
  obtain ⟨pre', done', c', after', heq, -, hheads, hhead, hrow⟩ :=
    @attached_row "x" [] [old] [user] c (resultRow "first") (by simp) hx hr
  exact ⟨pre', done', c', after', heq, hheads, hhead, hrow⟩

/-- A second answer that comes behind a user's row replaces the first. -/
theorem stranded_row_replaces :
    (repairMessageOrder
      [assistantRow ["x"], resultRow "first", bareRow .user none none, resultRow "second"]).1 =
      [assistantRow ["x"], resultRow "second", bareRow .user none none] := by
  rfl

end Octos.Agent
