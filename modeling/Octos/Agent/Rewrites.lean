import Mathlib.Data.List.Perm.Basic
import Octos.Agent.Ordering
import Octos.Base.Text

/-!
# Rewriting rows in place

Two passes of the loop rewrite rows and keep their number and roles. The ids of tool calls are
brought into one form, and the results of earlier rounds are cut.

## Main results

* `normalize_paired`: when calls and results stay paired
* `truncate_stable_iff`: when cutting is idempotent and lets no row grow
-/

namespace Octos.Agent

open List Message

variable {messages : List Message} {m : Message} {id : String}

/-! ## Ids of tool calls -/

def stripFront (id pat : String) : Option String :=
  if id.startsWith pat then some (String.ofList (id.toList.drop pat.length)) else none

def normalizeOneId (id : String) : String :=
  if id.startsWith "call_" || id.startsWith "fc_" then id
  else
    let stripped := ["call_function_", "toolu_", "chatcmpl-"].findSome? (stripFront id)
    "call_" ++ stripped.getD id

/-- The form of a single id; the empty id stays. -/
def normalizeToolCallId (id : String) : String := if id = "" then "" else normalizeOneId id

def rewrittenIds (messages : List Message) : List String :=
  (messages.flatMap (·.callIds)).filter fun id => id ≠ "" ∧ id.startsWith "call_" = false

def newId (messages : List Message) (id : String) : String :=
  if id ∈ rewrittenIds messages then normalizeOneId id else id

/-- Apply a function to every id of a row. -/
def Message.mapIds (f : String → String) (m : Message) : Message :=
  { m with
    toolCalls := m.toolCalls.map (·.map fun call => { call with id := f call.id })
    toolCallId := m.toolCallId.map f }

/-- Bring the ids into one form, and say whether an id changed. -/
def normalizeToolCallIds (messages : List Message) : List Message × Bool :=
  if (rewrittenIds messages).isEmpty then (messages, false)
  else
    (messages.map (·.mapIds (newId messages)),
      messages.any fun m => (m.callIds ++ m.toolCallId.toList).any fun id => newId messages id ≠ id)

theorem normalizeOneId_form (id : String) :
    (normalizeOneId id).startsWith "call_" = true ∨
      (normalizeOneId id).startsWith "fc_" = true := by
  rw [normalizeOneId]
  split_ifs with h
  · simpa using h
  · left
    rw [String.startsWith_string_iff, String.toList_append]
    exact prefix_append ..

theorem normalizeToolCallId_of_form
    (h : id.startsWith "call_" = true ∨ id.startsWith "fc_" = true) :
    normalizeToolCallId id = id := by
  rw [normalizeToolCallId, normalizeOneId, if_pos ((Bool.or_eq_true ..).mpr h)]
  split_ifs with hid
  · exact hid.symm
  · rfl

@[simp] theorem normalizeToolCallId_idem (id : String) :
    normalizeToolCallId (normalizeToolCallId id) = normalizeToolCallId id := by
  by_cases hid : id = ""
  · simp [normalizeToolCallId, hid]
  · rw [show normalizeToolCallId id = normalizeOneId id from if_neg hid]
    exact normalizeToolCallId_of_form (normalizeOneId_form id)

theorem newId_of_mem (hm : m ∈ messages) (hid : id ∈ m.callIds) :
    newId messages id = normalizeToolCallId id := by
  have hmem : id ∈ messages.flatMap (·.callIds) := mem_flatMap.mpr ⟨m, hm, hid⟩
  by_cases hempty : id = ""
  · simp [newId, rewrittenIds, normalizeToolCallId, hempty]
  · cases hcall : id.startsWith "call_" with
    | true =>
      rw [normalizeToolCallId_of_form (.inl hcall)]
      refine if_neg fun h => ?_
      exact absurd (of_decide_eq_true (mem_filter.mp h).2).2 (by rw [hcall]; decide)
    | false =>
      rw [normalizeToolCallId, if_neg hempty]
      exact if_pos (mem_filter.mpr ⟨hmem, decide_eq_true ⟨hempty, hcall⟩⟩)

theorem mem_callIds_of_declares (h : id ∈ m.declares) : id ∈ m.callIds := by
  rw [declares] at h
  split_ifs at h
  · exact h
  · cases h

/-- **The pass over a conversation.** Every id that a row declares gets the form of a single id, in
the calls and in the rows that answer them; every other id stays. -/
theorem normalizeToolCallIds_eq (messages : List Message) :
    (normalizeToolCallIds messages).1 = messages.map (·.mapIds (newId messages)) := by
  rw [normalizeToolCallIds]
  split_ifs with hempty
  · -- No id is to be rewritten.
    have hid : newId messages = fun id => id :=
      funext fun id => if_neg (by simp [isEmpty_iff.mp hempty])
    simp [hid, mapIds]
  · rfl

variable (f : String → String)

@[simp] theorem callIds_mapIds (m : Message) : (m.mapIds f).callIds = m.callIds.map f := by
  cases hcalls : m.toolCalls <;> simp [mapIds, callIds, hcalls]

@[simp] theorem declares_mapIds (m : Message) : (m.mapIds f).declares = m.declares.map f := by
  rw [declares, declares, callIds_mapIds]
  split_ifs with h h' h'
  exacts [rfl, absurd h h', absurd h' h, rfl]

@[simp] theorem isTool_mapIds (m : Message) : (m.mapIds f).isTool = m.isTool := rfl

@[simp] theorem answer_mapIds (m : Message) : (m.mapIds f).answer = m.answer.map f := by
  by_cases h : m.role = .tool <;> simp [answer, mapIds, h]

/-- A second pass finds every id in its form. -/
theorem normalizeToolCallIds_idem (messages : List Message) :
    (normalizeToolCallIds (normalizeToolCallIds messages).1).1 =
      (normalizeToolCallIds messages).1 := by
  have hfix : ∀ id, newId (messages.map (·.mapIds (newId messages))) id = id := by
    intro id
    by_cases h : id ∈ (messages.map (·.mapIds (newId messages))).flatMap (·.callIds)
    · obtain ⟨m', hm', hid⟩ := mem_flatMap.mp h
      rw [newId_of_mem hm' hid]
      obtain ⟨m, hm, rfl⟩ := mem_map.mp hm'
      rw [callIds_mapIds] at hid
      obtain ⟨x, hx, rfl⟩ := mem_map.mp hid
      rw [newId_of_mem hm hx, normalizeToolCallId_idem]
    · exact if_neg fun hmem => h (mem_filter.mp hmem).1
  rw [normalizeToolCallIds_eq, normalizeToolCallIds_eq, map_map, funext hfix]
  exact map_congr_left fun m _ => by simp [mapIds]

/-- Behind each assistant with calls, whose ids are distinct, there is one tool row for each. -/
def CallsPaired : List Message → Prop
  | [] => True
  | a :: rest =>
    (a.hasToolCalls = true → a.declares.Nodup ∧
      ((rest.takeWhile (·.isTool)).map (·.answer)).Perm (a.declares.map some)) ∧ CallsPaired rest

/-- A function on ids keeps the rows behind each assistant; it keeps them paired if it keeps the ids
of each assistant distinct. -/
theorem callsPaired_map_iff (h : CallsPaired messages) :
    CallsPaired (messages.map (·.mapIds f)) ↔ ∀ a ∈ messages, (a.declares.map f).Nodup := by
  induction messages with
  | nil => simp [CallsPaired]
  | cons a rest ih =>
    obtain ⟨ha, hrest⟩ := h
    rw [map_cons, CallsPaired, ih hrest, forall_mem_cons, declares_mapIds]
    refine and_congr_left fun _ => ?_
    by_cases hcalls : a.hasToolCalls = true
    · have hperm := (ha hcalls).2.map (Option.map f)
      have hrows : ((rest.map (·.mapIds f)).takeWhile (·.isTool)).map (·.answer) =
          ((rest.takeWhile (·.isTool)).map (·.answer)).map (Option.map f) := by
        simp [takeWhile_map, Function.comp_def]
      rw [hrows]
      have hmap : (a.declares.map f).map some = (a.declares.map some).map (Option.map f) := by simp
      rw [hmap]
      simp only [hasToolCalls, declares_mapIds, ne_eq, map_eq_nil_iff] at hcalls ⊢
      exact ⟨fun hf => (hf hcalls).1, fun hf _ => ⟨hf, hperm⟩⟩
    · have hnil : a.declares = [] := by simpa [hasToolCalls] using hcalls
      simp [hasToolCalls, hnil]

/-- **The pass over ids.** A paired conversation stays paired exactly when the ids of each assistant
have distinct forms. A second pass changes nothing, and each declared id gets the form of a single
id. -/
theorem normalize_paired (messages : List Message) :
    (CallsPaired messages → (CallsPaired (normalizeToolCallIds messages).1 ↔
      ∀ a ∈ messages, (a.declares.map normalizeToolCallId).Nodup)) ∧
    (normalizeToolCallIds (normalizeToolCallIds messages).1).1 = (normalizeToolCallIds messages).1 ∧
    ∃ f, (normalizeToolCallIds messages).1 = messages.map (·.mapIds f) ∧
      ∀ id ∈ declaredIds messages, f id = normalizeToolCallId id := by
  have hnew : ∀ a ∈ messages, ∀ id ∈ a.declares, newId messages id = normalizeToolCallId id :=
    fun a ha id hid => newId_of_mem ha (mem_callIds_of_declares hid)
  refine ⟨fun hpaired => ?_, normalizeToolCallIds_idem messages, newId messages,
    normalizeToolCallIds_eq messages, fun id hid => ?_⟩
  · rw [normalizeToolCallIds_eq, callsPaired_map_iff _ hpaired]
    refine forall₂_congr fun a ha => ?_
    rw [map_congr_left (hnew a ha)]
  · obtain ⟨a, ha, hid⟩ := mem_flatMap.mp hid
    exact hnew a ha id hid

/-- One assistant calls under ids of two providers, and their forms are distinct. -/
theorem normalize_paired_twoProviders : let messages :=
      [assistantRow ["toolu_a", "chatcmpl-b"], toolRow "toolu_a", toolRow "chatcmpl-b"]
    CallsPaired messages ∧ CallsPaired (normalizeToolCallIds messages).1 := by
  intro messages
  have hpaired : CallsPaired messages := by
    simp [messages, CallsPaired, assistantRow, toolRow, bareRow, hasToolCalls, declares, callIds,
      isTool, answer]
  refine ⟨hpaired, ((normalize_paired _).1 hpaired).mpr ?_⟩
  simp only [messages, forall_mem_cons]
  exact ⟨by decide +kernel, by decide, by decide⟩

/-- Ids of two providers have one form. -/
theorem colliding_ids : let messages :=
      [assistantRow ["toolu_a", "chatcmpl-a"], toolRow "toolu_a", toolRow "chatcmpl-a"]
    CallsPaired messages ∧ ¬ CallsPaired (normalizeToolCallIds messages).1 := by
  intro messages
  have hpaired : CallsPaired messages := by
    simp [messages, CallsPaired, assistantRow, toolRow, bareRow, hasToolCalls, declares, callIds,
      isTool, answer]
  refine ⟨hpaired, fun hout => ?_⟩
  rw [normalizeToolCallIds_eq, callsPaired_map_iff _ hpaired] at hout
  exact absurd (hout _ mem_cons_self) (by decide +kernel)

/-! ## Old results -/

def maxOldToolResultChars : ℕ := 800

def truncatedNote : String := "\n\n[... truncated for brevity]"

/-- A tool row whose content has too many bytes. -/
def Message.isLong (m : Message) : Bool :=
  m.isTool ∧ maxOldToolResultChars < utf8Len m.content.toList

/-- Cut the content of a long row after some characters. -/
def Message.truncate (m : Message) : Message :=
  if m.isLong then
    { m with
      content := String.ofList (m.content.toList.take maxOldToolResultChars) ++ truncatedNote }
  else m

/-- The number of rows before the last user row; none is old if there is no user row. -/
def oldCount (messages : List Message) : ℕ :=
  ((messages.map (·.role)).rdropWhile (· ≠ .user)).length - 1

/-- Cut the long rows before the last user row, and say whether there is one. -/
def truncateOldToolResults (messages : List Message) : List Message × Bool :=
  let old := messages.take (oldCount messages)
  (old.map (·.truncate) ++ messages.drop (oldCount messages), old.any (·.isLong))

theorem truncate_role (m : Message) : m.truncate.role = m.role := by
  rw [truncate]
  split_ifs <;> rfl

variable (messages)

/-- The pass cuts the old rows, and they are the old rows of what it leaves. -/
theorem truncateOldToolResults_spec :
    oldCount (truncateOldToolResults messages).1 = oldCount messages ∧
      ((messages.take (oldCount messages)).map (·.truncate)).length = oldCount messages := by
  constructor
  · have hroles : (truncateOldToolResults messages).1.map (·.role) = messages.map (·.role) := by
      simp only [truncateOldToolResults, map_append, map_map, Function.comp_def, truncate_role]
      rw [← map_append, take_append_drop]
    rw [oldCount, hroles, oldCount]
  · have hkept := rdropWhile_prefix (· ≠ .user) (messages.map (·.role))
    have hle := hkept.length_le
    simp only [oldCount, length_map, length_take] at hle ⊢
    omega

theorem truncate_idem_iff :
    (truncateOldToolResults (truncateOldToolResults messages).1).1 =
        (truncateOldToolResults messages).1 ↔
      ∀ m ∈ messages.take (oldCount messages), m.truncate.truncate = m.truncate := by
  obtain ⟨hcount, hlen⟩ := truncateOldToolResults_spec messages
  rw [truncateOldToolResults, hcount, truncateOldToolResults]
  simp only [take_left' hlen, drop_left' hlen, append_cancel_right_eq, map_map]
  exact map_inj_left

theorem utf8Len_truncate (h : m.isLong = true) :
    utf8Len m.truncate.content.toList + utf8Len (m.content.toList.drop maxOldToolResultChars) =
      utf8Len m.content.toList + utf8Len truncatedNote.toList := by
  have hsplit := congrArg utf8Len (take_append_drop maxOldToolResultChars m.content.toList)
  rw [utf8Len_append] at hsplit
  rw [truncate, if_pos h]
  simp only [String.toList_append, String.toList_ofList, utf8Len_append]
  omega

theorem truncate_truncate (h : maxOldToolResultChars ≤ m.content.toList.length) :
    m.truncate.truncate = m.truncate := by
  by_cases hlong : m.isLong = true
  · have hcontent : m.truncate.content.toList.take maxOldToolResultChars =
        m.content.toList.take maxOldToolResultChars := by
      rw [truncate, if_pos hlong, String.toList_append, String.toList_ofList]
      exact take_left' (length_take_of_le h)
    rw [truncate]
    split_ifs
    · rw [hcontent, truncate, if_pos hlong]
    · rfl
  · simp [truncate, hlong]

def NoGrowth (messages : List Message) : Prop :=
  Forall₂ (fun m m' : Message => m.isTool → utf8Len m'.content.toList ≤ utf8Len m.content.toList)
    (messages.take (oldCount messages))
    ((truncateOldToolResults messages).1.take (oldCount messages))

theorem noGrowth_iff :
    NoGrowth messages ↔ ∀ m ∈ messages.take (oldCount messages), m.isTool →
      utf8Len m.truncate.content.toList ≤ utf8Len m.content.toList := by
  rw [NoGrowth, truncateOldToolResults, take_left' (truncateOldToolResults_spec messages).2,
    forall₂_map_right_iff, forall₂_same]

/-- **Cutting old results.** The pass is idempotent and lets no old tool row grow exactly when each
long row loses at least as many bytes as the note has. -/
theorem truncate_stable_iff (messages : List Message) :
    ((truncateOldToolResults (truncateOldToolResults messages).1).1 =
        (truncateOldToolResults messages).1 ∧ NoGrowth messages) ↔
      ∀ m ∈ messages.take (oldCount messages), m.isLong →
        utf8Len truncatedNote.toList ≤ utf8Len (m.content.toList.drop maxOldToolResultChars) := by
  rw [truncate_idem_iff, noGrowth_iff, ← forall₂_and]
  refine forall₂_congr fun m _ => ?_
  by_cases hlong : m.isLong = true
  · have htool : m.isTool = true := (of_decide_eq_true hlong).1
    have hsize := utf8Len_truncate hlong
    simp only [hlong, htool, forall_const]
    refine ⟨fun h => by omega, fun h => ⟨truncate_truncate ?_, by omega⟩⟩
    by_contra hshort
    rw [drop_eq_nil_of_le (by omega)] at h
    exact absurd h (by decide)
  · simp [truncate, hlong]

/-- A result of some characters of two bytes. -/
def wideRow (n : ℕ) : Message := { toolRow "x" with content := String.ofList (replicate n 'é') }

/-- With too many bytes and few characters it grows by the note. -/
theorem wideRow_grows {n : ℕ} (h : 400 < n) (h' : n ≤ 800) :
    ¬ NoGrowth [wideRow n, bareRow .user none none] := by
  have htext : (wideRow n).content.toList = replicate n 'é' := String.toList_ofList
  have hbytes : utf8Len (replicate n 'é') = n * 2 := by
    have hchar : Char.utf8Size 'é' = 2 := by decide
    simp [utf8Len, hchar]
  have hlong : (wideRow n).isLong = true := by
    rw [isLong, htext, hbytes, maxOldToolResultChars]
    exact decide_eq_true ⟨rfl, by omega⟩
  have hsize := utf8Len_truncate hlong
  rw [htext, drop_eq_nil_of_le (by rwa [length_replicate, maxOldToolResultChars])] at hsize
  have hnil : utf8Len [] = 0 := rfl
  have hnote : 0 < utf8Len truncatedNote.toList := by decide
  rw [noGrowth_iff]
  intro hgrow
  have hrow := hgrow (wideRow n) mem_cons_self rfl
  rw [htext] at hrow
  omega

theorem old_row_grows : ¬ NoGrowth [wideRow 401, bareRow .user none none] :=
  wideRow_grows (by decide) (by decide)

end Octos.Agent
