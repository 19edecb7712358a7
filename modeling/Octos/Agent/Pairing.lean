import Mathlib.Data.List.Dedup
import Octos.Agent.Ordering

/-!
# Paired conversations

A provider accepts a conversation only if the results of every assistant's calls follow it directly
and there is no other tool row. The repair passes reach that form unless an assistant is stripped of
its calls while a row that it got answers a call which another assistant keeps: the pair pass knows
results by their id only, so that row survives behind an assistant that no longer declares it.

## Main results

* `repairConversation_wellPaired_iff`: which conversations the passes repair
-/

namespace Octos.Agent

open Block List Message

/-- Each assistant with calls is directly followed by one result for each of its ids, and every tool
row is such a result. -/
def WellPaired (messages : List Message) : Prop :=
  (∀ pre a post, messages = pre ++ a :: post → a.hasToolCalls = true →
    ((post.takeWhile (·.isTool)).map (·.toolCallId)).Perm (a.callIds.dedup.map some)) ∧
  ∀ pre row post, messages = pre ++ row :: post → row.isTool = true →
    ∃ pre' a block, pre = pre' ++ a :: block ∧ (∀ m ∈ block, m.isTool = true) ∧
      a.hasToolCalls = true ∧ ∃ id ∈ a.callIds, row.toolCallId = some id

/-- The rows that the passes see: the later system rows are folded away, up to the notes. -/
def conversation : List Message → List Message
  | [] => []
  | first :: rest => first :: rest.filter fun m => m.role ≠ .system ∨ m.isContextNote

/-- An id that a row without an owner answers. -/
def Stranded (messages : List Message) (x : String) : Prop :=
  ∃ pre row post, messages = pre ++ row :: post ∧ row.answer = some x ∧
    ownerOf messages pre.length = none

/-- An assistant with a call that no row answers gets a row for an id, its own or as the first that
declares the id of a stranded row, and another assistant declares that id and has all its calls
answered. -/
def Orphans (messages : List Message) : Prop :=
  ∃ pre a post x, messages = pre ++ a :: post ∧ x ∈ a.declares ∧
    (∃ y ∈ a.declares, y ∉ resultIds messages) ∧
    ((∃ row ∈ post.takeWhile (·.isTool), row.answer = some x) ∨
      (Stranded messages x ∧ x ∉ declaredIds pre)) ∧
    ∃ b ∈ messages, x ∈ b.declares ∧ ∀ y ∈ b.declares, y ∈ resultIds messages

/-! ## System rows -/

/-- What the passes read of a row. -/
def Message.key (m : Message) : Bool × List String × Option String × Option String :=
  (m.isTool, m.declares, m.answer, m.toolCallId)

variable {messages messages' : List Message} {m : Message} {x : String}

section

variable (h : messages.map (·.key) = messages'.map (·.key))
include h

theorem resultIds_congr : resultIds messages = resultIds messages' := by
  have hids := congrArg (filterMap (·.2.2.1)) h
  rwa [filterMap_map, filterMap_map] at hids

theorem declaredIds_congr : declaredIds messages = declaredIds messages' := by
  have hids := congrArg (flatMap (·.2.1)) h
  rwa [flatMap_map, flatMap_map] at hids

variable (k : ℕ)

theorem getElem?_congr : (messages[k]? = none ∧ messages'[k]? = none) ∨
    ∃ m m', messages[k]? = some m ∧ messages'[k]? = some m' ∧ m.key = m'.key := by
  have hk : messages[k]?.map (·.key) = messages'[k]?.map (·.key) := by
    rw [← getElem?_map, ← getElem?_map, h]
  cases hm : messages[k]? <;> cases hm' : messages'[k]? <;> simp_all

theorem ownerFrom_congr (id : String) (k : ℕ) :
    ownerFrom messages id k = ownerFrom messages' id k := by
  induction k with
  | zero => rfl
  | succ k ih =>
    rcases getElem?_congr h k with ⟨hm, hm'⟩ | ⟨m, m', hm, hm', hkey⟩
    · rw [ownerFrom, ownerFrom, hm, hm']
    · simp only [key, Prod.mk.injEq] at hkey
      rw [ownerFrom_succ hm, ownerFrom_succ hm', ih, hkey.1, hkey.2.1]

theorem ownerOf_congr : ownerOf messages k = ownerOf messages' k := by
  unfold ownerOf
  rcases getElem?_congr h k with ⟨hm, hm'⟩ | ⟨m, m', hm, hm', hkey⟩
  · rw [hm, hm']
  · simp only [key, Prod.mk.injEq] at hkey
    simp [hm, hm', hkey.2.2.2, ownerFrom_congr h]

theorem exists_split_congr {pre post : List Message} (hm : messages = pre ++ m :: post) :
    ∃ pre' m' post', messages' = pre' ++ m' :: post' ∧ pre.map (·.key) = pre'.map (·.key) ∧
      m.key = m'.key ∧ post.map (·.key) = post'.map (·.key) := by
  rw [hm, map_append, map_cons, eq_comm, map_eq_append_iff] at h
  obtain ⟨pre', rest, rfl, hpre, hrest⟩ := h
  obtain ⟨m', post', rfl, hkey, hpost⟩ := map_eq_cons_iff.mp hrest
  exact ⟨pre', m', post', rfl, hpre.symm, hkey.symm, hpost.symm⟩

theorem exists_mem_congr (hm : m ∈ messages) : ∃ m' ∈ messages', m.key = m'.key := by
  have hkey : m.key ∈ messages'.map (·.key) := h ▸ mem_map_of_mem hm
  obtain ⟨m', hm', heq⟩ := mem_map.mp hkey
  exact ⟨m', hm', heq.symm⟩

theorem takeWhile_congr :
    (messages.takeWhile (·.isTool)).map (·.key) = (messages'.takeWhile (·.isTool)).map (·.key) := by
  have htools := congrArg (takeWhile (·.1)) h
  rwa [takeWhile_map, takeWhile_map] at htools

theorem Orphans.congr (ho : Orphans messages) : Orphans messages' := by
  obtain ⟨pre, a, post, x, hsplit, hx, ⟨y, hy, hnone⟩, hgets, b, hb, hxb, hall⟩ := ho
  obtain ⟨pre', a', post', hsplit', hpre, ha, hpost⟩ := exists_split_congr h hsplit
  obtain ⟨b', hb', hkey⟩ := exists_mem_congr h hb
  simp only [key, Prod.mk.injEq] at ha hkey
  refine ⟨pre', a', post', x, hsplit', ha.2.1 ▸ hx, ⟨y, ha.2.1 ▸ hy, resultIds_congr h ▸ hnone⟩, ?_,
    b', hb', hkey.2.1 ▸ hxb, ?_⟩
  · rcases hgets with ⟨row, hrow, hans⟩ | ⟨⟨p, row, q, hstr, hans, hown⟩, hfirst⟩
    · obtain ⟨row', hrow', hk⟩ := exists_mem_congr (takeWhile_congr hpost) hrow
      simp only [key, Prod.mk.injEq] at hk
      exact .inl ⟨row', hrow', hk.2.2.1 ▸ hans⟩
    · obtain ⟨p', row', q', hstr', hp, hk, -⟩ := exists_split_congr h hstr
      simp only [key, Prod.mk.injEq] at hk
      have hlen : p'.length = p.length := by simpa using congrArg List.length hp.symm
      refine .inr ⟨⟨p', row', q', hstr', hk.2.2.1 ▸ hans, ?_⟩, declaredIds_congr hpre ▸ hfirst⟩
      rw [hlen, ← ownerOf_congr h]
      exact hown
  · rw [← hkey.2.1, ← resultIds_congr h]
    exact hall

end

theorem key_asNote (m : Message) : m.asNote.key = m.key := by
  unfold asNote
  split_ifs with h
  · simp [key, isTool, declares, answer, h.1]
  · rfl

theorem role_asNote (m : Message) :
    m.asNote.role ≠ .system ↔ m.role ≠ .system ∨ m.isContextNote = true := by
  unfold asNote
  split_ifs with h
  · simp [h.2]
  · by_cases hrole : m.role = .system
    · have hnote : ¬ m.isContextNote = true := fun hn => h ⟨hrole, hn⟩
      simp [hrole, hnote]
    · simp [hrole]

/-- Folding the system rows away leaves the first row and the later rows that are not folded. -/
theorem normalizeSystemMessages_spec (messages : List Message) :
    ((normalizeSystemMessages messages).1).map (·.key) = (conversation messages).map (·.key) ∧
      ∀ m ∈ (normalizeSystemMessages messages).1.tail, m.role ≠ .system := by
  rcases messages with _ | ⟨first, _ | ⟨second, rest⟩⟩
  · exact ⟨rfl, by simp [normalizeSystemMessages]⟩
  · exact ⟨rfl, by simp [normalizeSystemMessages]⟩
  · have hconv : ((second :: rest).filter fun m => m.role ≠ .system ∨ m.isContextNote).map (·.key) =
        (((second :: rest).map (·.asNote)).filter (·.role ≠ .system)).map (·.key) := by
      rw [filter_map, map_map]
      have hkey : key ∘ asNote = key := funext key_asNote
      rw [hkey]
      congr 1
      exact filter_congr fun m _ => decide_eq_decide.mpr (role_asNote m).symm
    rw [conversation, map_cons, hconv]
    simp only [normalizeSystemMessages]
    split_ifs with hextra
    · have hall : ((second :: rest).map (·.asNote)).filter (·.role ≠ .system) =
          (second :: rest).map (·.asNote) := by
        refine filter_eq_self.mpr fun m hm => ?_
        have hnone := filter_eq_nil_iff.mp (List.isEmpty_iff.mp hextra) m hm
        simpa using hnone
      refine ⟨by rw [hall]; rfl, fun m hm => ?_⟩
      simpa using filter_eq_self.mp hall m hm
    · refine ⟨rfl, fun m hm => ?_⟩
      simpa using (mem_filter.mp hm).2

/-! ## Blocks of a conversation -/

section

variable {pre : List Message} {segs : List Seg}

theorem owner_tools (hpre : Tools pre) (id : String) : owner pre id = none := by
  have h := @owner_append_tools [] pre hpre id
  exact h

theorem owner_block (kept rows : List Message) (s : Seg) (hrows : Tools rows) (id : String) :
    owner (kept ++ s.head :: rows) id = if id ∈ s.head.declares then some kept.length
      else none := by
  rw [append_cons, owner_append_tools hrows, owner_snoc, s.head_not]
  simp

theorem isTool_of_answer (h : m.answer = some x) : m.isTool = true := by
  unfold answer at h
  split_ifs at h with hrole
  simp [isTool, hrole]

/-- The rows without an owner are those before every block and those that their head does not
declare. -/
theorem stranded_iff (hpre : Tools pre) : Stranded (pre ++ flat segs) x ↔ Strays pre segs x := by
  constructor
  · rintro ⟨p, row, q, hsplit, hans, hown⟩
    rw [hsplit, ownerOf_eq hans] at hown
    rcases split_row (isTool_of_answer hans) hsplit with ⟨t, ht⟩ | ⟨s₁, s, s₂, r₁, r₂, hs, hr, hp⟩
    · exact .inl ⟨row, by rw [ht]; simp, hans⟩
    · have hr₁ : Tools r₁ := fun m hm => s.rows_all m (by rw [hr]; simp [hm])
      rw [hp, owner_block _ _ s hr₁] at hown
      refine .inr ⟨s, by rw [hs]; simp, ?_, row, by rw [hr]; simp, hans⟩
      intro hx
      rw [if_pos hx] at hown
      cases hown
  · rintro (⟨row, hrow, hans⟩ | ⟨s, hs, hx, row, hrow, hans⟩)
    · obtain ⟨p, q, rfl⟩ := append_of_mem hrow
      refine ⟨p, row, q ++ flat segs, by simp, hans, ?_⟩
      rw [append_assoc, cons_append, ownerOf_eq hans]
      exact owner_tools (fun m hm => hpre m (by simp [hm])) x
    · obtain ⟨s₁, s₂, rfl⟩ := append_of_mem hs
      obtain ⟨r₁, r₂, hr⟩ := append_of_mem hrow
      have hr₁ : Tools r₁ := fun m hm => s.rows_all m (by rw [hr]; simp [hm])
      have heq : pre ++ flat (s₁ ++ s :: s₂) =
          (pre ++ flat s₁ ++ s.head :: r₁) ++ row :: (r₂ ++ flat s₂) := by
        simp [hr]
      refine ⟨pre ++ flat s₁ ++ s.head :: r₁, row, r₂ ++ flat s₂, heq, hans, ?_⟩
      rw [heq, ownerOf_eq hans, owner_block _ _ s hr₁, if_neg hx]

theorem declaredIds_append (l l' : List Message) :
    declaredIds (l ++ l') = declaredIds l ++ declaredIds l' := flatMap_append

theorem declaredIds_pre (hpre : Tools pre) (segs : List Seg) :
    declaredIds (pre ++ flat segs) = declaredIds (flat segs) := by
  rw [declaredIds_append, declaredIds_rows hpre, nil_append]

theorem not_isTool_of_declares (h : x ∈ m.declares) : m.isTool = false := by
  refine Bool.eq_false_iff.mpr fun htool => ?_
  rw [declares_tool htool] at h
  cases h

theorem not_isTool_of_hasToolCalls (h : m.hasToolCalls = true) : m.isTool = false := by
  refine Bool.eq_false_iff.mpr fun htool => ?_
  rw [hasToolCalls_tool htool] at h
  cases h

theorem exists_head (hpre : Tools pre) (hm : m ∈ pre ++ flat segs)
    (hx : x ∈ m.declares) : ∃ s ∈ segs, s.head = m := by
  have hhead := not_isTool_of_declares hx
  rcases mem_append.mp hm with hm | hm
  · exact absurd (hpre m hm) (by simp [hhead])
  · obtain ⟨s, hs, rfl | hrow⟩ := mem_flat.mp hm
    · exact ⟨s, hs, rfl⟩
    · exact absurd (s.rows_all m hrow) (by simp [hhead])

theorem mem_flat_head {s : Seg} (hs : s ∈ segs) : s.head ∈ pre ++ flat segs :=
  mem_append_right _ (mem_flat.mpr ⟨s, hs, .inl rfl⟩)

theorem orphans_iff (hpre : Tools pre) :
    Orphans (pre ++ flat segs) ↔ ∃ s₁ s s₂ x, segs = s₁ ++ s :: s₂ ∧
      Gets (Strays pre segs) (declaredIds (flat s₁)) s x ∧
      (∃ y ∈ s.head.declares, y ∉ resultIds (pre ++ flat segs)) ∧
      ∃ b ∈ segs, x ∈ b.head.declares ∧
        ∀ y ∈ b.head.declares, y ∈ resultIds (pre ++ flat segs) := by
  constructor
  · rintro ⟨p, a, post, x, hsplit, hx, hnone, hgets, b, hb, hxb, hall⟩
    obtain ⟨s₁, s, s₂, hs, rfl, hp, hpost⟩ := split_head hpre (not_isTool_of_declares hx) hsplit
    obtain ⟨b', hb', rfl⟩ := exists_head hpre hb hxb
    refine ⟨s₁, s, s₂, x, hs, ⟨hx, ?_⟩, hnone, b', hb', hxb, hall⟩
    rw [stranded_iff hpre, hp, hpost, takeWhile_rows, declaredIds_pre hpre] at hgets
    exact hgets
  · rintro ⟨s₁, s, s₂, x, hs, ⟨hx, hgets⟩, hnone, b, hb, hxb, hall⟩
    refine ⟨pre ++ flat s₁, s.head, s.rows ++ flat s₂, x, ?_, hx, hnone, ?_, b.head,
      mem_flat_head hb, hxb, hall⟩
    · rw [hs]
      simp
    · rw [stranded_iff hpre, takeWhile_rows, declaredIds_pre hpre]
      exact hgets

/-! ## The blocks that are settled -/

variable {S : String → Prop} {D before : List String} {t₀ t : List Seg} {s₀ s : Seg}

section

variable (h : SettledAll S D before t₀ t)
include h

theorem SettledAll.exists_of_mem (hs : s ∈ t) :
    ∃ a s₀ b, t₀ = a ++ s₀ :: b ∧ Settled S D (before ++ declaredIds (flat a)) s₀ s := by
  induction h with
  | nil => exact absurd hs not_mem_nil
  | @cons before r₀ r t₀ t hr _ ih =>
    rcases mem_cons.mp hs with rfl | hs
    · exact ⟨[], r₀, t₀, rfl, by simpa [declaredIds] using hr⟩
    · obtain ⟨a, s₀, b, rfl, hset⟩ := ih hs
      refine ⟨r₀ :: a, s₀, b, rfl, ?_⟩
      rwa [declaredIds_flat_cons, ← append_assoc]

theorem SettledAll.exists_of_split {a b : List Seg} (hsplit : t₀ = a ++ s₀ :: b) :
    ∃ s ∈ t, Settled S D (before ++ declaredIds (flat a)) s₀ s := by
  induction h generalizing a with
  | nil => simp at hsplit
  | @cons before r₀ r t₀ t hr _ ih =>
    cases a with
    | nil =>
      obtain ⟨rfl, rfl⟩ := List.cons.inj hsplit
      exact ⟨r, mem_cons_self, by simpa [declaredIds] using hr⟩
    | cons a₀ a =>
      obtain ⟨rfl, htail⟩ := List.cons.inj hsplit
      obtain ⟨s, hs, hset⟩ := ih htail
      refine ⟨s, mem_cons_of_mem r hs, ?_⟩
      rwa [declaredIds_flat_cons, ← append_assoc]

theorem SettledAll.heads_eq : t.map (·.head) = t₀.map (·.head) := by
  induction h with
  | nil => rfl
  | cons hs _ ih => rw [map_cons, map_cons, ih, hs.1]

end

theorem exists_first (h : x ∈ declaredIds (flat segs)) :
    ∃ a s b, segs = a ++ s :: b ∧ x ∈ s.head.declares ∧ x ∉ declaredIds (flat a) := by
  induction segs with
  | nil => simp [declaredIds] at h
  | cons s segs ih =>
    by_cases hx : x ∈ s.head.declares
    · exact ⟨[], s, segs, rfl, hx, by simp [declaredIds]⟩
    · rw [declaredIds_flat_cons, mem_append, or_iff_right hx] at h
      obtain ⟨a, r, b, rfl, hr, hfirst⟩ := ih h
      refine ⟨s :: a, r, b, rfl, hr, ?_⟩
      rw [declaredIds_flat_cons, mem_append]
      exact not_or.mpr ⟨hx, hfirst⟩

theorem mem_resultIds : x ∈ resultIds messages ↔ ∃ m ∈ messages, m.answer = some x :=
  mem_filterMap

theorem mem_resultIds_blocks : x ∈ resultIds (pre ++ flat segs) ↔
    (∃ m ∈ pre, m.answer = some x) ∨ ∃ s ∈ segs, ∃ m ∈ s.rows, m.answer = some x := by
  rw [mem_resultIds]
  constructor
  · rintro ⟨m, hm, hans⟩
    rcases mem_append.mp hm with hm | hm
    · exact .inl ⟨m, hm, hans⟩
    · obtain ⟨s, hs, rfl | hrow⟩ := mem_flat.mp hm
      · rw [answer_head s.head_not] at hans
        cases hans
      · exact .inr ⟨s, hs, m, hrow, hans⟩
  · rintro (⟨m, hm, hans⟩ | ⟨s, hs, m, hm, hans⟩)
    · exact ⟨m, mem_append_left _ hm, hans⟩
    · exact ⟨m, mem_append_right _ (mem_flat.mpr ⟨s, hs, .inr hm⟩), hans⟩

theorem Strays.mem_resultIds (h : Strays pre segs x) : x ∈ resultIds (pre ++ flat segs) := by
  rw [mem_resultIds_blocks]
  rcases h with h | ⟨s, hs, -, h⟩
  · exact .inl h
  · exact .inr ⟨s, hs, h⟩

theorem Gets.mem_resultIds (h : Gets (Strays pre segs) before s x) (hs : s ∈ segs) :
    x ∈ resultIds (pre ++ flat segs) := by
  rcases h.2 with hown | ⟨hstray, -⟩
  · exact mem_resultIds_blocks.mpr (.inr ⟨s, hs, hown⟩)
  · exact hstray.mem_resultIds

theorem Settled.mem_of_gets (h : Settled S D before s₀ s) (hx : Gets S before s₀ x) :
    ∃ m ∈ s.rows, m.answer = some x := by
  obtain ⟨-, blk, placed, hrows, hmap, -, hiff⟩ := h
  obtain ⟨m, hm, hans⟩ := (exists_answer_placed hmap).mpr ((hiff x).mpr hx)
  exact ⟨m, hrows ▸ mem_append_left _ hm, hans⟩

/-- **The order pass keeps which declared ids are answered.** -/
theorem mem_resultIds_ordered {segs' : List Seg}
    (hall : SettledAll (Strays pre segs) (declaredIds (flat segs)) [] segs segs')
    (hx : x ∈ declaredIds (flat segs)) :
    x ∈ resultIds (pre.filter (!·.answers (declaredIds (flat segs))) ++ flat segs') ↔
      x ∈ resultIds (pre ++ flat segs) := by
  constructor
  · intro h
    rcases mem_resultIds_blocks.mp h with ⟨m, hm, hans⟩ | ⟨s, hs, m, hm, hans⟩
    · exact mem_resultIds_blocks.mpr (.inl ⟨m, (mem_filter.mp hm).1, hans⟩)
    · obtain ⟨a, s₀, b, hsplit, -, blk, placed, hrows, hmap, -, hiff⟩ := hall.exists_of_mem hs
      have hs₀ : s₀ ∈ segs := by
        rw [hsplit]
        simp
      rw [hrows] at hm
      rcases mem_append.mp hm with hm | hm
      · have hy := (exists_answer_placed hmap).mp ⟨m, hm, hans⟩
        exact ((hiff x).mp hy).mem_resultIds hs₀
      · exact mem_resultIds_blocks.mpr (.inr ⟨s₀, hs₀, m, (mem_filter.mp hm).1, hans⟩)
  · intro h
    -- An owned row stays with its head; a stranded one goes to the first head that declares it.
    have hstray : Strays pre segs x → ∃ s ∈ segs', ∃ m ∈ s.rows, m.answer = some x := by
      intro hs
      obtain ⟨a, s₀, b, hsplit, hdecl, hfirst⟩ := exists_first hx
      obtain ⟨s, hs', hset⟩ := hall.exists_of_split hsplit
      exact ⟨s, hs', hset.mem_of_gets ⟨hdecl, .inr ⟨hs, hfirst⟩⟩⟩
    refine mem_resultIds_blocks.mpr (.inr ?_)
    rcases mem_resultIds_blocks.mp h with hpre | ⟨s₀, hs₀, hrow⟩
    · exact hstray (.inl hpre)
    · by_cases hdecl : x ∈ s₀.head.declares
      · obtain ⟨a, b, hsplit⟩ := append_of_mem hs₀
        obtain ⟨s, hs', hset⟩ := hall.exists_of_split hsplit
        exact ⟨s, hs', hset.mem_of_gets ⟨hdecl, .inl hrow⟩⟩
      · exact hstray (.inr ⟨s₀, hs₀, hdecl, hrow⟩)

/-! ## The pair pass on blocks -/

variable {matched remaining : List String}

theorem role_strip (m : Message) : (m.strip matched).role = m.role := by
  unfold strip
  split_ifs <;> rfl

theorem declares_strip (m : Message) :
    (m.strip matched).declares = if m.isUnmatched matched then [] else m.declares := by
  cases hun : m.isUnmatched matched with
  | false => simp [strip, hun]
  | true => simp [strip, hun, declares, callIds]

theorem strip_tool (h : m.isTool = true) : m.strip matched = m := by
  have hnone : m.isUnmatched matched = false := by simp [isUnmatched, declares_tool h]
  simp [strip, hnone]

/-- A block whose head is stripped if it has a call that is not matched. -/
def stripSeg (matched : List String) (s : Seg) : Seg where
  head := s.head.strip matched
  rows := s.rows
  head_not := by
    have h := s.head_not
    simp only [Message.isTool, role_strip] at h ⊢
    exact h
  rows_all := s.rows_all

/-- What the pair pass leaves of a block. -/
def pairSeg (matched remaining : List String) (s : Seg) : Seg :=
  (stripSeg matched s).keep (·.answers remaining)

theorem kept_iff (h : m.isTool = true) :
    (m.role = .tool → ∃ id ∈ m.toolCallId, id ∈ remaining) ↔ m.answers remaining = true := by
  have hrole : m.role = .tool := by simpa [isTool] using h
  cases hid : m.toolCallId <;> simp [answers, answer, hrole, hid]

section

variable (hpre : Tools pre)
include hpre

theorem map_strip :
    (pre ++ flat segs).map (·.strip matched) = pre ++ flat (segs.map (stripSeg matched)) := by
  have hrows : ∀ l : List Message, Tools l →
      l.map (·.strip matched) = l := fun l hl =>
    (map_congr_left fun m hm => strip_tool (hl m hm)).trans (map_id' l)
  rw [map_append, hrows pre hpre]
  congr 1
  induction segs with
  | nil => rfl
  | cons s segs ih =>
    rw [map_cons, flat_cons, flat_cons, map_append, map_cons, hrows s.rows s.rows_all, ih]
    rfl

theorem filter_paired :
    (pre ++ flat segs).filter
        (fun m => decide (m.role = .tool → ∃ id ∈ m.toolCallId, id ∈ remaining)) =
      pre.filter (·.answers remaining) ++ flat (segs.map (·.keep (·.answers remaining))) := by
  have hrows : ∀ l : List Message, Tools l →
      l.filter (fun m => decide (m.role = .tool → ∃ id ∈ m.toolCallId, id ∈ remaining)) =
        l.filter (·.answers remaining) := by
    intro l hl
    refine filter_congr fun m hm => ?_
    rw [Bool.eq_iff_iff, decide_eq_true_eq, kept_iff (hl m hm)]
  rw [filter_append, hrows pre hpre]
  congr 1
  induction segs with
  | nil => rfl
  | cons s segs ih =>
    have hhead : (s.head.role = .tool → ∃ id ∈ s.head.toolCallId, id ∈ remaining) := by
      intro h
      have hnot := s.head_not
      simp [isTool, h] at hnot
    rw [map_cons, flat_cons, flat_cons, filter_append, filter_cons,
      if_pos (decide_eq_true hhead), hrows s.rows s.rows_all, ih]
    rfl

theorem repairToolPairs_blocks
    (hm : matched = (declaredIds (flat segs)).filter (· ∈ resultIds (pre ++ flat segs)))
    (hr : remaining = declaredIds (flat (segs.map (stripSeg matched)))) :
    (repairToolPairs (pre ++ flat segs)).1 =
      pre.filter (·.answers remaining) ++ flat (segs.map (pairSeg matched remaining)) := by
  simp only [repairToolPairs]
  rw [declaredIds_pre hpre, ← hm, map_strip hpre, declaredIds_pre hpre, ← hr, filter_paired hpre,
    map_map]
  rfl

end

/-! ## Missing results on blocks -/

theorem placeholders_spec (a : Message) (existing : List String) (calls : List ToolCall)
    (synthesised : List String) :
    ∃ ids : List String, (placeholders a existing calls synthesised).map (·.toolCallId) =
        ids.map some ∧ ids.Nodup ∧
      (∀ m ∈ placeholders a existing calls synthesised, m.isTool = true) ∧
      ∀ x, x ∈ ids ↔ x ∈ calls.map (·.id) ∧ x ∉ existing ∧ x ∉ synthesised := by
  induction calls generalizing synthesised with
  | nil => exact ⟨[], rfl, nodup_nil, by simp [placeholders], by simp⟩
  | cons call calls ih =>
    rw [placeholders]
    split_ifs with hskip
    · obtain ⟨ids, hmap, hnodup, htool, hiff⟩ := ih synthesised
      refine ⟨ids, hmap, hnodup, htool, fun x => ?_⟩
      rw [hiff, map_cons, mem_cons]
      refine and_congr_left fun hx => (or_iff_right fun heq => ?_).symm
      rcases hskip with h | h
      · exact hx.1 (heq ▸ h)
      · exact hx.2 (heq ▸ h)
    · obtain ⟨ids, hmap, hnodup, htool, hiff⟩ := ih (call.id :: synthesised)
      rw [not_or] at hskip
      refine ⟨call.id :: ids, by rw [map_cons, map_cons, hmap]; rfl, ?_, ?_, fun x => ?_⟩
      · exact nodup_cons.mpr ⟨fun h => ((hiff _).mp h).2.2 mem_cons_self, hnodup⟩
      · rintro m (_ | ⟨_, hm⟩)
        exacts [rfl, htool m hm]
      · rw [mem_cons, hiff, map_cons, mem_cons, mem_cons]
        by_cases hx : x = call.id
        · subst hx
          simp [hskip]
        · simp [hx]

/-- A block with its missing results filled in. -/
def fillSeg (s : Seg) : Seg where
  head := s.head
  rows := if s.head.hasToolCalls then
    s.rows ++ placeholders s.head (resultIds s.rows) (s.head.toolCalls.getD []) [] else s.rows
  head_not := s.head_not
  rows_all := by
    intro m hm
    split_ifs at hm
    · rcases mem_append.mp hm with hm | hm
      · exact s.rows_all m hm
      · obtain ⟨-, -, -, htool, -⟩ := placeholders_spec s.head (resultIds s.rows)
          (s.head.toolCalls.getD []) []
        exact htool m hm
    · exact s.rows_all m hm

theorem endsWindow_tool (h : m.isTool = true) : m.endsWindow = false := by
  simp only [isTool, decide_eq_true_eq] at h
  simp [endsWindow, h]

theorem endsWindow_head (h : m.isTool = false) (hsys : m.role ≠ .system) : m.endsWindow = true := by
  simp only [isTool, decide_eq_false_iff_not] at h
  cases hrole : m.role <;> simp_all [endsWindow]

theorem window_eq (s : Seg) (hsys : ∀ r ∈ segs, r.head.role ≠ .system) :
    (s.rows ++ flat segs).takeWhile (!·.endsWindow) = s.rows := by
  rw [takeWhile_append_of_pos fun m hm => by simp [endsWindow_tool (s.rows_all m hm)]]
  cases segs with
  | nil => simp
  | cons r segs =>
    have hend := endsWindow_head r.head_not (hsys r mem_cons_self)
    simp [hend]

theorem synthesizeFrom_rows {rows todo : List Message} (hrows : Tools rows)
    (steps : ℕ) : (synthesizeFrom (rows.length + steps) (rows ++ todo)).1 =
      rows ++ (synthesizeFrom steps todo).1 := by
  induction rows with
  | nil => simp
  | cons m rows ih =>
    have hstep : (m :: rows).length + steps = (rows.length + steps) + 1 := by
      simp only [length_cons]
      omega
    rw [hstep, cons_append, synthesizeFrom,
      if_neg (by simp [hasToolCalls_tool (hrows m mem_cons_self)])]
    simp [ih fun m' hm' => hrows m' (mem_cons_of_mem m hm')]

theorem synthesizeFrom_blocks {steps : ℕ} (hsys : ∀ r ∈ segs.tail, r.head.role ≠ .system)
    (hsteps : (flat segs).length ≤ steps) :
    (synthesizeFrom steps (flat segs)).1 = flat (segs.map fillSeg) := by
  induction segs generalizing steps with
  | nil => cases steps <;> rfl
  | cons s segs ih =>
    have htail : ∀ r ∈ segs.tail, r.head.role ≠ .system := fun r hr =>
      hsys r (mem_of_mem_tail hr)
    simp only [flat_cons, cons_append, length_cons, length_append] at hsteps
    obtain ⟨n, rfl⟩ : ∃ n, steps = n + 1 := ⟨steps - 1, by omega⟩
    rw [map_cons, flat_cons, flat_cons, cons_append, synthesizeFrom]
    cases hcalls : s.head.hasToolCalls with
    | true =>
      have hwindow : (s.rows ++ flat segs).takeWhile (!·.endsWindow) = s.rows := window_eq s hsys
      simp only [if_true, hwindow, drop_left, ih htail (by omega : _ ≤ n)]
      simp [fillSeg, hcalls]
    | false =>
      obtain ⟨k, rfl⟩ : ∃ k, n = s.rows.length + k := ⟨n - s.rows.length, by omega⟩
      simp only [Bool.false_eq_true, if_false, synthesizeFrom_rows s.rows_all,
        ih htail (by omega : _ ≤ k)]
      simp [fillSeg, hcalls]

/-! ## The form that providers accept -/

/-- A block in that form. -/
def Paired (s : Seg) : Prop :=
  if s.head.hasToolCalls then
    (s.rows.map (·.toolCallId)).Perm (s.head.callIds.dedup.map some)
  else s.rows = []

theorem wellPaired_flat : WellPaired (flat segs) ↔ ∀ s ∈ segs, Paired s := by
  constructor
  · rintro ⟨hcalls, hrows⟩ s hs
    obtain ⟨s₁, s₂, rfl⟩ := append_of_mem hs
    unfold Paired
    split_ifs with h
    · have hperm := hcalls (flat s₁) s.head (s.rows ++ flat s₂) (by simp) h
      rwa [takeWhile_rows] at hperm
    · -- A row behind a head without calls would have no assistant.
      refine eq_nil_iff_forall_not_mem.mpr fun m hm => ?_
      obtain ⟨r₁, r₂, hr⟩ := append_of_mem hm
      obtain ⟨p, a, blk, hsplit, hblk, ha, -⟩ := hrows (flat s₁ ++ s.head :: r₁) m (r₂ ++ flat s₂)
        (by simp [hr]) (s.rows_all m hm)
      have hr₁ : Tools r₁ := fun m hm => s.rows_all m (by rw [hr]; simp [hm])
      have heq := last_head_unique s.head_not (not_isTool_of_hasToolCalls ha) hr₁ hblk hsplit
      exact h (heq ▸ ha)
  · intro hall
    refine ⟨?_, ?_⟩
    · intro pre a post hsplit ha
      obtain ⟨s₁, s, s₂, rfl, rfl, -, rfl⟩ := split_head
        (fun c hc => absurd hc not_mem_nil) (not_isTool_of_hasToolCalls ha)
        ((nil_append _).trans hsplit)
      have hpaired := hall s (by simp)
      rw [Paired, if_pos ha] at hpaired
      rwa [takeWhile_rows]
    · intro pre row post hsplit hrow
      rcases split_row hrow ((nil_append _).trans hsplit) with
        ⟨t, ht⟩ | ⟨s₁, s, s₂, r₁, r₂, rfl, hr, rfl⟩
      · simp at ht
      · have hpaired := hall s (by simp)
        have hmem : row ∈ s.rows := by rw [hr]; simp
        rw [Paired] at hpaired
        split_ifs at hpaired with hcalls
        · have hid : row.toolCallId ∈ s.head.callIds.dedup.map some :=
            hpaired.mem_iff.mp (mem_map_of_mem hmem)
          obtain ⟨id, hid, heq⟩ := mem_map.mp hid
          refine ⟨flat s₁, s.head, r₁, by simp, fun m hm => ?_, hcalls, id, mem_dedup.mp hid,
            heq.symm⟩
          exact s.rows_all m (by rw [hr]; simp [hm])
        · rw [hpaired] at hmem
          exact absurd hmem not_mem_nil

theorem answers_mono {ids : List String} (hsub : ∀ y ∈ ids, y ∈ D) (h : m.answers ids = true) :
    m.answers D = true := by
  obtain ⟨y, hans, hy⟩ := (Option.any_eq_true ..).mp h
  exact (answers_iff hans).mpr (hsub y (by simpa using hy))

/-- The rows of a settled block after the pair pass: those of its head that some head still
declares. -/
theorem pairSeg_rows {blk : List Message} (hsub : ∀ y ∈ remaining, y ∈ D)
    (hrows : s.rows = blk ++ leftover D s₀) :
    (pairSeg matched remaining s).rows = blk.filter (·.answers remaining) := by
  have hleft : (leftover D s₀).filter (·.answers remaining) = [] := by
    refine filter_eq_nil_iff.mpr fun m hm hm' => ?_
    have hkeep := (mem_filter.mp hm).2
    simp [answers_mono hsub hm'] at hkeep
  change s.rows.filter (·.answers remaining) = _
  rw [hrows, filter_append, hleft, append_nil]

theorem paired_fillSeg {placed : List String} (hmap : s.rows.map (·.answer) = placed.map some)
    (hnodup : placed.Nodup) (hsub : ∀ x ∈ placed, x ∈ s.head.declares) : Paired (fillSeg s) := by
  rw [Paired, show (fillSeg s).head = s.head from rfl]
  cases hcalls : s.head.hasToolCalls with
  | true =>
    obtain ⟨ids, hids, hnodup', -, hiff⟩ := placeholders_spec s.head (resultIds s.rows)
      (s.head.toolCalls.getD []) []
    have hrows : s.rows.map (·.toolCallId) = placed.map some := by
      rw [← hmap]
      exact map_congr_left fun m hm => (answer_eq (s.rows_all m hm)).symm
    have hexisting : ∀ x, x ∈ resultIds s.rows ↔ x ∈ placed := fun x =>
      mem_resultIds.trans (exists_answer_placed hmap)
    have hfill : (fillSeg s).rows.map (·.toolCallId) = (placed ++ ids).map some := by
      simp [fillSeg, hcalls, hrows, hids]
    rw [if_pos rfl, hfill]
    -- Both sides are without repetition and have the same members.
    refine List.Perm.map some ((perm_ext_iff_of_nodup ?_ (nodup_dedup _)).mpr fun x => ?_)
    · refine nodup_append.mpr ⟨hnodup, hnodup', ?_⟩
      rintro x hx _ hy rfl
      exact ((hiff x).mp hy).2.1 ((hexisting x).mpr hx)
    · rw [mem_append, hiff, mem_dedup, hexisting, callIds_eq hcalls]
      have hcall : (s.head.toolCalls.getD []).map (·.id) = s.head.declares := callIds_eq hcalls
      rw [hcall]
      by_cases hx : x ∈ placed
      · simp [hx, hsub x hx]
      · simp [hx]
  | false =>
    have hdecl : s.head.declares = [] := by simpa [hasToolCalls] using hcalls
    have hnil : placed = [] := by
      refine eq_nil_iff_forall_not_mem.mpr fun x hx => ?_
      have := hsub x hx
      rw [hdecl] at this
      exact absurd this not_mem_nil
    rw [hnil] at hmap
    have hrows : s.rows = [] := by simpa using hmap
    simp [fillSeg, hcalls, hrows]

/-- **A block after the passes is in the form, unless its head is stripped and a row that it got is
for an id that another head keeps.** -/
theorem paired_fillSeg_iff (h : Settled S D before s₀ s) (hsub : ∀ y ∈ remaining, y ∈ D)
    (hwhole : s₀.head.isUnmatched matched = false → ∀ y ∈ s₀.head.declares, y ∈ remaining) :
    Paired (fillSeg (pairSeg matched remaining s)) ↔
      ¬ (s₀.head.isUnmatched matched = true ∧ ∃ x, Gets S before s₀ x ∧ x ∈ remaining) := by
  obtain ⟨hhead, blk, placed, hrows, hmap, hnodup, hiff⟩ := h
  have hpair : (pairSeg matched remaining s).rows = blk.filter (·.answers remaining) :=
    pairSeg_rows hsub hrows
  have hstrip : (pairSeg matched remaining s).head = s₀.head.strip matched := by
    rw [← hhead]
    rfl
  have hdecl : (pairSeg matched remaining s).head.declares =
      if s₀.head.isUnmatched matched then [] else s₀.head.declares := by
    rw [hstrip, declares_strip]
  cases hun : s₀.head.isUnmatched matched with
  -- A stripped head may have no rows, so none that it got may survive.
  | true =>
    rw [hun, if_pos rfl] at hdecl
    have hno : (pairSeg matched remaining s).head.hasToolCalls = false := by
      simp [hasToolCalls, hdecl]
    have hfill : (fillSeg (pairSeg matched remaining s)).rows =
        blk.filter (·.answers remaining) := by
      simp [fillSeg, hno, hpair]
    rw [Paired, show (fillSeg (pairSeg matched remaining s)).head.hasToolCalls = false from hno,
      if_neg (by decide), hfill, filter_eq_nil_iff]
    constructor
    · rintro hnone ⟨-, x, hgets, hx⟩
      obtain ⟨m, hm, hans⟩ := (exists_answer_placed hmap).mpr ((hiff x).mpr hgets)
      exact hnone m hm (by simp [answers, hans, hx])
    · intro hnone m hm hm'
      obtain ⟨x, hx, hans⟩ := answer_of_mem_placed hmap hm
      exact hnone ⟨rfl, x, (hiff x).mp hx, by simpa [answers, hans] using hm'⟩
  -- A head that keeps its calls keeps its rows, and gets the missing ones.
  | false =>
    rw [hun, if_neg (by decide)] at hdecl
    have hkeep : blk.filter (·.answers remaining) = blk := by
      refine filter_eq_self.mpr fun m hm => ?_
      obtain ⟨x, hx, hans⟩ := answer_of_mem_placed hmap hm
      simp [answers, hans, hwhole hun x ((hiff x).mp hx).1]
    rw [hkeep] at hpair
    refine iff_of_true (paired_fillSeg ?_ hnodup ?_) (by simp)
    · rw [hpair, hmap]
    · intro x hx
      rw [hdecl]
      exact ((hiff x).mp hx).1

theorem declaredIds_flat (segs : List Seg) :
    declaredIds (flat segs) = (segs.map (·.head)).flatMap (·.declares) := by
  induction segs with
  | nil => rfl
  | cons s segs ih => rw [declaredIds_flat_cons, ih, map_cons, flatMap_cons]

theorem mem_declaredIds_flat : x ∈ declaredIds (flat segs) ↔ ∃ s ∈ segs, x ∈ s.head.declares := by
  rw [declaredIds_flat, flatMap_map, mem_flatMap]

theorem SettledAll.exists_head_iff (h : SettledAll S D before t₀ t) (P : Message → Prop) :
    (∃ s ∈ t, P s.head) ↔ ∃ s₀ ∈ t₀, P s₀.head := by
  have hheads : (∃ m ∈ t.map (·.head), P m) ↔ ∃ m ∈ t₀.map (·.head), P m := by rw [h.heads_eq]
  simpa using hheads

theorem system_heads {segs : List Seg} (hsys : ∀ m ∈ (pre ++ flat segs).tail, m.role ≠ .system) :
    ∀ s ∈ segs.tail, s.head.role ≠ .system := by
  intro s hs
  refine hsys s.head ?_
  cases segs with
  | nil => exact absurd hs not_mem_nil
  | cons r segs =>
    have hmem : s.head ∈ flat segs := mem_flat.mpr ⟨s, hs, .inl rfl⟩
    cases pre with
    | nil | cons m pre => simp [hmem]

theorem SettledAll.head_tail (h : SettledAll S D before t₀ t) (hs : s ∈ t.tail) :
    ∃ s₀ ∈ t₀.tail, s₀.head = s.head := by
  have hmem := mem_map_of_mem (f := (·.head)) hs
  rw [map_tail, h.heads_eq, ← map_tail] at hmem
  exact mem_map.mp hmem

end

theorem repaired_wellPaired_iff {pre : List Message} {segs : List Seg}
    (hpre : Tools pre) (hsys : ∀ m ∈ (pre ++ flat segs).tail, m.role ≠ .system) :
    WellPaired (synthesizeMissingToolResults
        (repairToolPairs (repairMessageOrder (pre ++ flat segs)).1).1).1 ↔
      ¬ Orphans (pre ++ flat segs) := by
  obtain ⟨segs', hordered, hall⟩ := @repairMessageOrder_spec pre segs hpre
  set pre' := pre.filter (!·.answers (declaredIds (flat segs))) with hpre'
  set matched :=
    (declaredIds (flat segs')).filter (· ∈ resultIds (pre' ++ flat segs')) with hmatched
  set remaining := declaredIds (flat (segs'.map (stripSeg matched))) with hremaining
  have htools : Tools pre' := fun m hm => hpre m (mem_filter.mp hm).1
  -- An id is matched exactly if the conversation answers it.
  have hunmatched : ∀ s₀ ∈ segs, (s₀.head.isUnmatched matched = true ↔
      ∃ y ∈ s₀.head.declares, y ∉ resultIds (pre ++ flat segs)) := by
    intro s₀ hs₀
    simp only [isUnmatched, any_eq_true, decide_eq_true_eq]
    refine exists_congr fun y => and_congr_right fun hy => not_congr ?_
    have hD : y ∈ declaredIds (flat segs) := mem_declaredIds_flat.mpr ⟨s₀, hs₀, hy⟩
    rw [hmatched, mem_filter, decide_eq_true_eq, declaredIds_flat, hall.heads_eq,
      ← declaredIds_flat, mem_resultIds_ordered hall hD]
    exact and_iff_right hD
  have hanswered : ∀ s₀ ∈ segs, s₀.head.isUnmatched matched = false →
      ∀ y ∈ s₀.head.declares, y ∈ resultIds (pre ++ flat segs) := by
    intro s₀ hs₀ hun y hy
    by_contra hnone
    rw [(hunmatched s₀ hs₀).mpr ⟨y, hy, hnone⟩] at hun
    cases hun
  have hkept : ∀ x, x ∈ remaining ↔ ∃ b ∈ segs, x ∈ b.head.declares ∧
      ∀ y ∈ b.head.declares, y ∈ resultIds (pre ++ flat segs) := by
    intro x
    rw [hremaining, mem_declaredIds_flat]
    simp only [mem_map, exists_exists_and_eq_and]
    refine (hall.exists_head_iff fun m => x ∈ (m.strip matched).declares).trans ?_
    refine exists_congr fun b => and_congr_right fun hb => ?_
    rw [declares_strip]
    cases hun : b.head.isUnmatched matched with
    | true =>
      obtain ⟨y, hy, hnone⟩ := (hunmatched b hb).mp hun
      exact iff_of_false (by simp) fun h => hnone (h.2 y hy)
    | false =>
      exact (and_iff_left (hanswered b hb hun)).symm
  have hsub : ∀ y ∈ remaining, y ∈ declaredIds (flat segs) := fun y hy => by
    obtain ⟨b, hb, hyb, -⟩ := (hkept y).mp hy
    exact mem_declaredIds_flat.mpr ⟨b, hb, hyb⟩
  -- No row before the blocks is left, so the passes end with the blocks.
  have hnil : pre'.filter (·.answers remaining) = [] := by
    refine filter_eq_nil_iff.mpr fun m hm hm' => ?_
    have hnot := (mem_filter.mp hm).2
    simp [answers_mono hsub hm'] at hnot
  have hheads : ∀ r ∈ (segs'.map (pairSeg matched remaining)).tail, r.head.role ≠ .system := by
    rw [← map_tail]
    intro r hr
    obtain ⟨s, hs, rfl⟩ := mem_map.mp hr
    obtain ⟨s₀, hs₀, hhead⟩ := hall.head_tail hs
    change (s.head.strip matched).role ≠ .system
    rw [role_strip, ← hhead]
    exact system_heads hsys s₀ hs₀
  rw [hordered, repairToolPairs_blocks htools hmatched hremaining, hnil, nil_append,
    synthesizeMissingToolResults, synthesizeFrom_blocks hheads le_rfl, wellPaired_flat,
    orphans_iff hpre]
  simp only [mem_map, forall_exists_index, and_imp, forall_apply_eq_imp_iff₂]
  have hwhole : ∀ s₀ ∈ segs, s₀.head.isUnmatched matched = false →
      ∀ y ∈ s₀.head.declares, y ∈ remaining := by
    intro s₀ hs₀ hun y hy
    exact (hkept y).mpr ⟨s₀, hs₀, hy, hanswered s₀ hs₀ hun⟩
  constructor
  · rintro hpaired ⟨s₁, s₀, s₂, x, hsplit, hgets, hnone, hb⟩
    have hs₀ : s₀ ∈ segs := by rw [hsplit]; simp
    obtain ⟨s, hs, hset⟩ := hall.exists_of_split hsplit
    exact (paired_fillSeg_iff hset hsub (hwhole s₀ hs₀)).mp (hpaired s hs)
      ⟨(hunmatched s₀ hs₀).mpr hnone, x, hgets, (hkept x).mpr hb⟩
  · intro hno s hs
    obtain ⟨s₁, s₀, s₂, hsplit, hset⟩ := hall.exists_of_mem hs
    have hs₀ : s₀ ∈ segs := by rw [hsplit]; simp
    refine (paired_fillSeg_iff hset hsub (hwhole s₀ hs₀)).mpr ?_
    rintro ⟨hun, x, hgets, hx⟩
    exact hno ⟨s₁, s₀, s₂, x, hsplit, hgets, (hunmatched s₀ hs₀).mp hun, (hkept x).mp hx⟩

/-- **Which conversations the passes repair.** The repaired rows are in the form that providers
accept exactly if the conversation has no orphans. -/
theorem repairConversation_wellPaired_iff (messages : List Message) :
    WellPaired (repairConversation messages) ↔ ¬ Orphans (conversation messages) := by
  obtain ⟨hkeys, hsys⟩ := normalizeSystemMessages_spec messages
  have horphans : Orphans (conversation messages) ↔ Orphans (normalizeSystemMessages messages).1 :=
    ⟨Orphans.congr hkeys.symm, Orphans.congr hkeys⟩
  rw [horphans, repairConversation]
  generalize (normalizeSystemMessages messages).1 = normalized at hsys
  obtain ⟨pre, segs, hpre, rfl⟩ := exists_blocks Message.isTool normalized
  exact repaired_wellPaired_iff hpre hsys

/-- Two assistants use one id, and the first has another call that was never answered. -/
def reusedId : List Message :=
  [assistantRow ["x", "y"], toolRow "x", assistantRow ["x"], toolRow "x"]

/-- The first assistant of `reusedId` is stripped and its row stays, since the second declares the
same id. -/
theorem reusedId_not_wellPaired : ¬ WellPaired (repairConversation reusedId) := by
  have hout : repairConversation reusedId =
      [{ bareRow .assistant none none with content := "[Called tools: read, read]" }] ++
        toolRow "x" :: [assistantRow ["x"], toolRow "x"] := by
    rfl
  intro h
  obtain ⟨pre, a, block, hsplit, -, hcalls, -⟩ := h.2 _ _ _ hout rfl
  have ha :
      a ∈ [{ bareRow .assistant none none with content := "[Called tools: read, read]" }] := by
    rw [hsplit]
    simp
  rw [mem_singleton.mp ha] at hcalls
  cases hcalls

end Octos.Agent
