import Octos.Agent.Messages
import Octos.Base.Text
import Octos.Base.Keys

/-!
# Resuming a session

`octos-bus/src/resume_policy.rs`: a transcript that was loaded from disk is sanitized before it goes
to a provider, which rejects tool calls without results and results without calls. Whether a call is
resolved is decided from the ids of all results in the transcript, wherever they are; a result is
kept when a call for it has been kept before it. So a call whose only results come before it is kept
and they are not.

## Main results

* `sanitize_resolved_iff`: when one pass resolves everything, for good
-/

namespace Octos.Session

open Octos.Agent List Message

variable {messages : List Message} {declared : List String} {m : Message}

/-! ## Tool calls and results -/

/-- `content.trim().is_empty()`. -/
def isBlank (text : String) : Bool := (trim text.toList).isEmpty

/-- `RetryStateView`: the ids pinned by a retry in flight. -/
abbrev RetryState := String → Bool

def resultHasMatchingCall (kept : List Message) (id : String) : Bool :=
  kept.any fun m => m.role = .assistant && m.callIds.contains id

/-- The assistant row with the calls that are resolved; nothing when neither calls nor text are
left. -/
def keepResolvedCalls (resolved : String → Bool) (m : Message) : Option Message :=
  match m.toolCalls with
  | none => some m
  | some [] => some m
  | some calls =>
    let keptCalls := calls.filter fun call => resolved call.id
    if keptCalls ≠ [] then some { m with toolCalls := some keptCalls }
    else if !isBlank m.content then some { m with toolCalls := none }
    else none

def losesCall (resolved : String → Bool) (m : Message) : Bool :=
  m.callIds.any fun id => !resolved id

/-- One row of the second walk of `filter_unresolved_tool_uses`, with the rows kept and the count of
rows affected. -/
def filterRow (resolved : String → Bool) (acc : List Message × ℕ) (m : Message) :
    List Message × ℕ :=
  match m.role with
  | .tool =>
    match m.toolCallId with
    | some id =>
      if resultHasMatchingCall acc.1 id then (acc.1 ++ [m], acc.2) else (acc.1, acc.2 + 1)
    | none => (acc.1, acc.2 + 1)
  | .assistant =>
    (acc.1 ++ (keepResolvedCalls resolved m).toList, acc.2 + if losesCall resolved m then 1 else 0)
  | .system => (acc.1 ++ [m], acc.2)
  | .user => (acc.1 ++ [m], acc.2)

def filterUnresolvedToolUses (retryState : Option RetryState) (messages : List Message) :
    List Message × ℕ :=
  let results := resultIds messages
  messages.foldl (filterRow fun id => results.contains id || retryState.any (· id)) ([], 0)

/-! ## Rows without payload -/

def hasCalls (m : Message) : Bool := !(m.toolCalls.getD []).isEmpty

def hasReasoning (m : Message) : Bool := m.reasoningContent.any fun r => !isBlank r

def isThinkingOnly (m : Message) : Bool :=
  m.role = .assistant && hasReasoning m && (isBlank m.content && !hasCalls m)

def filterOrphanedThinkingOnlyMessages (preserveInFlightTail : Bool) :
    List Message → List Message × ℕ
  | [] => ([], 0)
  | m :: rest =>
    let kept := filterOrphanedThinkingOnlyMessages preserveInFlightTail rest
    if !(rest.isEmpty && preserveInFlightTail) && isThinkingOnly m then (kept.1, kept.2 + 1)
    else (m :: kept.1, kept.2)

def isWhitespaceOnlyAssistant (m : Message) : Bool :=
  m.role = .assistant && isBlank m.content && !hasCalls m && !hasReasoning m

def filterWhitespaceOnlyAssistantMessages (messages : List Message) : List Message × ℕ :=
  (messages.filter fun m => !isWhitespaceOnlyAssistant m, messages.countP isWhitespaceOnlyAssistant)

/-! ## Paths in tool results -/

/-- The hash is never set here. -/
structure ReplacementStateRef where
  path : String
  contentHash : Option String

mutual

def extractPathsFromJson : Json → List String
  | .obj fields => extractPathsFromFields fields
  | .arr items => extractPathsFromItems items
  | .null => []
  | .bool _ => []
  | .str _ => []
  | .num _ => []

def extractPathsFromFields : List (String × Json) → List String
  | [] => []
  | (key, value) :: fields =>
    (if key ∈ ["path", "file", "file_path", "filename"] then value.asStr?.toList else []) ++
      extractPathsFromJson value ++ extractPathsFromFields fields

def extractPathsFromItems : List Json → List String
  | [] => []
  | value :: items => extractPathsFromJson value ++ extractPathsFromItems items

end

def trimMatches (c : Char) (text : List Char) : List Char :=
  (text.dropWhile (· == c)).rdropWhile (· == c)

/-- The quotes around a path, and the separator of paths on Windows. -/
def doubleQuote : Char := Char.ofNat 34

@[inherit_doc doubleQuote] def singleQuote : Char := Char.ofNat 39

@[inherit_doc doubleQuote] def backslash : Char := Char.ofNat 92

def pathAfter (line : List Char) (keyword : String) : Option String :=
  (stripPrefix keyword (String.ofList line)).bind fun rest =>
    let candidate := trimMatches singleQuote (trimMatches doubleQuote (trim rest.toList))
    let text := String.ofList candidate
    if (candidate.contains '/' || candidate.contains backslash) && text.utf8ByteSize < 512 then
      some text
    else none

def extractPathFromLine (line : List Char) : Option String :=
  ["path:", "file:", "wrote ", "read "].findSome? (pathAfter (trim line))

def pushUnique (refs : List ReplacementStateRef) (path : String) : List ReplacementStateRef :=
  if path.isEmpty || refs.any (·.path == path) then refs else refs ++ [⟨path, none⟩]

variable (parseJson : String → Option Json)

/-- The paths a tool result refers to: those of its JSON, then those of its lines. -/
def pathsOf (m : Message) : List String :=
  ((parseJson m.content).map extractPathsFromJson).getD [] ++
    (lines m.content.toList).filterMap extractPathFromLine

def reconstructContentReplacementState (messages : List Message) : List ReplacementStateRef :=
  ((messages.filter (·.isTool)).flatMap (pathsOf parseJson)).foldl pushUnique []

/-! ## The policy -/

structure SessionSanitizeReport where
  inputLen : ℕ
  outputLen : ℕ
  unresolvedToolUsesDropped : ℕ
  orphanThinkingDropped : ℕ
  whitespaceOnlyDropped : ℕ
  contentReplacementsRestored : ℕ
  worktreeMissing : Bool
  warnings : List String

structure SanitizeOutcome where
  messages : List Message
  report : SessionSanitizeReport
  contentReplacements : List ReplacementStateRef

inductive SanitizeError
  | worktreeMissing (path : String) (report : SessionSanitizeReport)

inductive WorktreeStatus
  | present
  | missing
  | bumpFailed (error : String)

/-- `ResumePolicy::sanitize`. A workspace root comes with what the check of it says. -/
def sanitize (messages : List Message) (retryState : Option RetryState)
    (workspaceRoot : Option (String × WorktreeStatus)) : Except SanitizeError SanitizeOutcome :=
  let resolved := filterUnresolvedToolUses retryState messages
  let spoken := filterOrphanedThinkingOnlyMessages retryState.isSome resolved.1
  let kept := filterWhitespaceOnlyAssistantMessages spoken.1
  let contentReplacements := reconstructContentReplacementState parseJson kept.1
  let report : SessionSanitizeReport :=
    { inputLen := messages.length
      outputLen := kept.1.length
      unresolvedToolUsesDropped := resolved.2
      orphanThinkingDropped := spoken.2
      whitespaceOnlyDropped := kept.2
      contentReplacementsRestored := contentReplacements.length
      worktreeMissing := false
      warnings := [] }
  match workspaceRoot with
  | none => .ok ⟨kept.1, report, contentReplacements⟩
  | some (_, .present) => .ok ⟨kept.1, report, contentReplacements⟩
  | some (root, .missing) => .error (.worktreeMissing root { report with worktreeMissing := true })
  | some (root, .bumpFailed error) =>
    .ok ⟨kept.1,
      { report with warnings := ["mtime bump failed for " ++ root ++ ": " ++ error] },
      contentReplacements⟩

/-! ## What is kept -/

/-- The row has something to say. -/
def hasPayload (m : Message) : Bool := !(m.role = .assistant && isBlank m.content && !hasCalls m)

/-- The row that is left of a row, after the calls that were declared before it. -/
def keptRow (results declared : List String) (m : Message) : Option Message :=
  match m.role with
  | .tool => if m.toolCallId.any (· ∈ declared) then some m else none
  | .assistant => (keepResolvedCalls results.contains m).filter hasPayload
  | .system => some m
  | .user => some m

/-- The rows that are left, after the calls that were declared before them. -/
def keptFrom (results : List String) : List String → List Message → List Message
  | _, [] => []
  | declared, m :: rest =>
    (keptRow results declared m).toList ++ keptFrom results (declared ++ m.declares) rest

theorem hasCalls_eq (m : Message) : hasCalls m = !m.callIds.isEmpty := by
  rw [hasCalls, callIds, isEmpty_map]

section

variable {results declared : List String} {m m' : Message}

theorem declaredIds_append (first second : List Message) :
    declaredIds (first ++ second) = declaredIds first ++ declaredIds second := flatMap_append

theorem declaredIds_keepResolvedCalls (resolved : String → Bool) (hrole : m.role = .assistant) :
    declaredIds (keepResolvedCalls resolved m).toList = m.declares.filter resolved := by
  have hmap : ∀ calls : List ToolCall, (calls.filter fun call => resolved call.id).map (·.id) =
      (calls.map (·.id)).filter resolved := fun calls => by rw [filter_map]; rfl
  rw [declares, if_pos hrole, callIds, keepResolvedCalls]
  split
  next hcalls => simp [declaredIds, declares, hrole, callIds, hcalls]
  next hcalls => simp [declaredIds, declares, hrole, callIds, hcalls]
  next calls hne hcalls =>
    dsimp only
    rw [hcalls, Option.getD_some, ← hmap]
    split_ifs with hkept htext
    · simp [declaredIds, declares, hrole, callIds]
    · simp [declaredIds, declares, hrole, callIds, not_not.mp hkept]
    · simp [declaredIds, not_not.mp hkept]

theorem declares_of_not_hasPayload (h : hasPayload m = false) : m.declares = [] := by
  rw [hasPayload, hasCalls_eq] at h
  rw [declares]
  split_ifs with hrole
  · simp [hrole] at h
    exact h.2
  · rfl

theorem role_keepResolvedCalls {resolved : String → Bool}
    (h : keepResolvedCalls resolved m = some m') : m'.role = m.role := by
  rw [keepResolvedCalls] at h
  split at h
  · rw [Option.some.inj h]
  · rw [Option.some.inj h]
  · dsimp only at h
    split_ifs at h
    · rw [← Option.some.inj h]
    · rw [← Option.some.inj h]

/-- What is left of a row: nothing, when it has no resolved call and answers none that was declared,
or a row that answers as before and declares its resolved calls. -/
theorem keptRow_spec (results declared : List String) (m : Message) :
    (keptRow results declared m = none ∧ m.declares.filter results.contains = [] ∧
      ∀ id ∈ declared, m.answer ≠ some id) ∨
    ∃ m', keptRow results declared m = some m' ∧ m'.answer = m.answer ∧
      m'.declares = m.declares.filter results.contains ∧ hasPayload m' = true ∧
      (m'.role = .tool → ∃ id ∈ declared, m'.toolCallId = some id) := by
  -- By the role: only assistants lose calls, and only results are dropped for their id.
  cases hrole : m.role with
  | assistant =>
    have hanswer : m.answer = none := by simp [answer, hrole]
    have hdecl := declaredIds_keepResolvedCalls results.contains hrole
    simp only [hanswer, ← hdecl]
    cases hkeep : keepResolvedCalls results.contains m with
    | none => simp [keptRow, hrole, hkeep, declaredIds]
    | some m' =>
      have hrole' := (role_keepResolvedCalls hkeep).trans hrole
      cases hpayload : hasPayload m' with
      | true =>
        refine .inr ⟨m', ?_, by simp [answer, hrole'], by simp [declaredIds], hpayload, ?_⟩
        · simp [keptRow, hrole, hkeep, Option.filter_some, hpayload]
        · simp [hrole']
      | false =>
        have hnone := declares_of_not_hasPayload hpayload
        simp [keptRow, hrole, hkeep, Option.filter_some, hpayload, declaredIds, hnone]
  | tool =>
    have hnone : m.declares = [] := by simp [declares, hrole]
    cases hid : m.toolCallId with
    | none => simp [keptRow, hrole, hid, hnone, answer]
    | some id =>
      by_cases hdeclared : id ∈ declared
      · exact .inr ⟨m, by simp [keptRow, hrole, hid, hdeclared], rfl, by simp [hnone],
          by simp [hasPayload, hrole], fun _ => ⟨id, hdeclared, hid⟩⟩
      · refine .inl ⟨by simp [keptRow, hrole, hid, hdeclared], by simp [hnone], ?_⟩
        rintro id' hid' hanswer
        obtain rfl : id = id' := by simpa [answer, hrole, hid] using hanswer
        exact hdeclared hid'
  | system | user =>
    exact .inr ⟨m, by simp [keptRow, hrole], rfl, by simp [declares, hrole],
      by simp [hasPayload, hrole], by simp [hrole]⟩

end

/-! ## The passes together -/

variable {rest : List Message} {id : String}

theorem mem_resultIds_cons :
    id ∈ resultIds (m :: rest) ↔ m.answer = some id ∨ id ∈ resultIds rest := by
  rw [resultIds, filterMap_cons]
  cases hanswer : m.answer with
  | none => simp [resultIds]
  | some answer => simp [resultIds, eq_comm]

variable {kept : List Message}

theorem resultHasMatchingCall_iff :
    resultHasMatchingCall kept id = true ↔ id ∈ declaredIds kept := by
  rw [resultHasMatchingCall, any_eq_true, declaredIds, mem_flatMap]
  refine exists_congr fun m => and_congr_right fun _ => ?_
  rw [declares]
  split_ifs with hrole <;> simp [hrole]

variable {results : List String}

/-- The first pass, up to rows without payload: the calls kept so far are those declared so far that
have a result. -/
theorem filter_foldl_filterRow (declared : List String)
    {n : ℕ} (hresults : resultIds messages ⊆ results)
    (hdeclared : ∀ id ∈ results, id ∈ declaredIds kept ↔ id ∈ declared) :
    (messages.foldl (filterRow results.contains) (kept, n)).1.filter hasPayload =
      kept.filter hasPayload ++ keptFrom results declared messages := by
  induction messages generalizing kept n declared with
  | nil => simp [keptFrom]
  | cons m rest ih =>
    have hrest : resultIds rest ⊆ results :=
      fun id hid => hresults (mem_resultIds_cons.mpr (.inr hid))
    have hkeep : ∀ row : Option Message, keptRow results declared m = row.filter hasPayload →
        filterRow results.contains (kept, n) m =
          (kept ++ row.toList, (filterRow results.contains (kept, n) m).2) →
        (∀ id ∈ results, id ∈ declaredIds row.toList ↔ id ∈ m.declares) →
        (List.foldl (filterRow results.contains) (kept, n) (m :: rest)).1.filter hasPayload =
          kept.filter hasPayload ++ keptFrom results declared (m :: rest) := by
      intro row hrow hstep hcalls
      rw [foldl_cons, hstep, ih (declared ++ m.declares) hrest, filter_append, append_assoc,
        keptFrom, hrow]
      · cases row with
        | none => rfl
        | some m' => cases hpayload : hasPayload m' <;> simp [Option.filter_some, hpayload]
      · intro id hid
        rw [declaredIds_append, mem_append, mem_append, hdeclared id hid, hcalls id hid]
    cases hrole : m.role with
    | assistant =>
      refine hkeep (keepResolvedCalls results.contains m) (by simp [keptRow, hrole])
        (by simp [filterRow, hrole]) fun id hid => ?_
      rw [declaredIds_keepResolvedCalls _ hrole, mem_filter]
      simp [hid]
    | system | user =>
      exact hkeep (some m) (by simp [keptRow, hrole, Option.filter_some, hasPayload])
        (by simp [filterRow, hrole]) (by simp [declaredIds, declares, hrole])
    | tool =>
      cases hid : m.toolCallId with
      | none =>
        exact hkeep none (by simp [keptRow, hrole, hid]) (by simp [filterRow, hrole, hid])
          (by simp [declaredIds, declares, hrole])
      | some id =>
        -- the row is itself a result for its id
        have hmem : id ∈ results :=
          hresults (mem_resultIds_cons.mpr (.inl (by simp [answer, hrole, hid])))
        by_cases hcall : id ∈ declared
        · have hmatch := resultHasMatchingCall_iff.mpr ((hdeclared id hmem).mpr hcall)
          exact hkeep (some m)
            (by simp [keptRow, hrole, hid, hcall, Option.filter_some, hasPayload])
            (by simp [filterRow, hrole, hid, hmatch]) (by simp [declaredIds, declares, hrole])
        · have hmatch : ¬ resultHasMatchingCall kept id = true := fun hmatch =>
            hcall ((hdeclared id hmem).mp (resultHasMatchingCall_iff.mp hmatch))
          exact hkeep none (by simp [keptRow, hrole, hid, hcall])
            (by simp [filterRow, hrole, hid, hmatch]) (by simp [declaredIds, declares, hrole])

theorem filterOrphanedThinkingOnlyMessages_false (messages : List Message) :
    (filterOrphanedThinkingOnlyMessages false messages).1 =
      messages.filter fun m => !isThinkingOnly m := by
  induction messages with
  | nil => rfl
  | cons m rest ih =>
    rw [filterOrphanedThinkingOnlyMessages, filter_cons, ← ih]
    cases isThinkingOnly m <;> simp

theorem hasPayload_eq (m : Message) :
    (!isThinkingOnly m && !isWhitespaceOnlyAssistant m) = hasPayload m := by
  rw [isThinkingOnly, isWhitespaceOnlyAssistant, hasPayload]
  cases decide (m.role = .assistant) <;> cases isBlank m.content <;> cases hasCalls m <;>
    cases hasReasoning m <;> rfl

/-- **What is left of a transcript** on a cold reload. -/
theorem sanitize_eq_ok (messages : List Message) :
    ∃ outcome, sanitize parseJson messages none none = .ok outcome ∧
      outcome.messages = keptFrom (resultIds messages) [] messages := by
  refine ⟨_, rfl, ?_⟩
  have hresolved : (fun id => (resultIds messages).contains id ||
      (none : Option RetryState).any (· id)) = (resultIds messages).contains :=
    funext fun id => Bool.or_false _
  change List.filter (fun m => !isWhitespaceOnlyAssistant m)
    (filterOrphanedThinkingOnlyMessages false (filterUnresolvedToolUses none messages).1).1 = _
  rw [filterOrphanedThinkingOnlyMessages_false, filter_filter]
  simp only [Bool.and_comm (!isWhitespaceOnlyAssistant _), hasPayload_eq]
  rw [filterUnresolvedToolUses, hresolved,
    filter_foldl_filterRow [] (List.Subset.refl _) (by simp [declaredIds])]
  rfl

/-! ## Resolution -/

/-- Every tool row follows an assistant row that declares its id, every call has a result after it,
and no assistant row is empty. -/
structure Resolved (messages : List Message) : Prop where
  results : ∀ before m, before ++ [m] <+: messages → m.role = .tool →
    ∃ id ∈ declaredIds before, m.toolCallId = some id
  calls : ∀ m after, m :: after <:+ messages → ∀ id ∈ m.declares, id ∈ resultIds after
  payload : ∀ m ∈ messages, m.role = .assistant → isBlank m.content = false ∨ m.callIds ≠ []

/-- A call whose id has a result anywhere has a result after it. -/
def ResultsFollow (messages : List Message) : Prop :=
  ∀ m after, m :: after <:+ messages → ∀ id ∈ m.declares, id ∈ resultIds messages →
    id ∈ resultIds after

theorem forall_suffix_cons {α : Type} {p : α → List α → Prop} {x : α} {xs : List α} :
    (∀ y after, y :: after <:+ x :: xs → p y after) ↔
      p x xs ∧ ∀ y after, y :: after <:+ xs → p y after := by
  simp only [suffix_cons_iff, List.cons.injEq]
  constructor
  · intro h
    exact ⟨h x xs (.inl ⟨rfl, rfl⟩), fun y after hy => h y after (.inr hy)⟩
  · rintro ⟨hx, hxs⟩ y after (⟨rfl, rfl⟩ | hy)
    · exact hx
    · exact hxs y after hy

section

variable {results : List String}

theorem resultIds_append (first second : List Message) :
    resultIds (first ++ second) = resultIds first ++ resultIds second := filterMap_append

theorem mem_resultIds_keptFrom {id : String} (hid : id ∈ declared) :
    id ∈ resultIds (keptFrom results declared messages) ↔ id ∈ resultIds messages := by
  induction messages generalizing declared with
  | nil => rfl
  | cons m rest ih =>
    rw [keptFrom, resultIds_append, mem_append, ih (mem_append_left _ hid), mem_resultIds_cons]
    refine or_congr_left ?_
    rcases keptRow_spec results declared m with ⟨hrow, -, hskip⟩ | ⟨m', hrow, hanswer, -⟩
    · simp [hrow, resultIds, hskip id hid]
    · simp [hrow, resultIds, hanswer]

/-- The calls that are kept have results after them when the results of the transcript follow its
calls, and only then. -/
theorem calls_keptFrom_iff (declared : List String) (messages : List Message) :
    (∀ m after, m :: after <:+ keptFrom results declared messages →
        ∀ id ∈ m.declares, id ∈ resultIds after) ↔
      ∀ m after, m :: after <:+ messages → ∀ id ∈ m.declares, id ∈ results →
        id ∈ resultIds after := by
  induction messages generalizing declared with
  | nil => simp [keptFrom]
  | cons m rest ih =>
    rw [forall_suffix_cons, ← ih (declared ++ m.declares), keptFrom]
    rcases keptRow_spec results declared m with ⟨hrow, hnone, -⟩ | ⟨m', hrow, -, hdecl, -⟩
    · rw [hrow, Option.toList_none, nil_append]
      exact (and_iff_right fun id hid hmem =>
        absurd (contains_iff_mem.mpr hmem) (filter_eq_nil_iff.mp hnone id hid)).symm
    · rw [hrow, Option.toList_some, singleton_append, forall_suffix_cons]
      refine and_congr_left' ?_
      simp only [hdecl, mem_filter, contains_iff_mem, and_imp]
      refine forall_congr' fun id => imp_congr_right fun hid => imp_congr_right fun _ => ?_
      exact mem_resultIds_keptFrom (mem_append_right _ hid)

theorem results_keptFrom (hresults : resultIds messages ⊆ results) {before : List Message}
    (hm : before ++ [m] <+: keptFrom results declared messages) (hrole : m.role = .tool) :
    ∃ id ∈ results, m.toolCallId = some id ∧ (id ∈ declared ∨ id ∈ declaredIds before) := by
  -- On the rows; what is declared so far grows by the calls that are kept.
  induction messages generalizing declared before with
  | nil => simp [keptFrom] at hm
  | cons m₀ rest ih =>
    have hrest : resultIds rest ⊆ results :=
      fun id hid => hresults (mem_resultIds_cons.mpr (.inr hid))
    rw [keptFrom] at hm
    rcases keptRow_spec results declared m₀ with
      ⟨hrow, hnone, -⟩ | ⟨m', hrow, hanswer, hdecl, -, htool⟩
    · rw [hrow, Option.toList_none, nil_append] at hm
      obtain ⟨id, hid, hcall, hdeclared⟩ := ih hrest hm
      refine ⟨id, hid, hcall, hdeclared.imp_left fun hdeclared => ?_⟩
      rcases mem_append.mp hdeclared with hdeclared | hdeclared
      · exact hdeclared
      · exact absurd (contains_iff_mem.mpr hid) (filter_eq_nil_iff.mp hnone id hdeclared)
    · rw [hrow, Option.toList_some, singleton_append] at hm
      cases before with
      | nil =>
        obtain ⟨rfl, -⟩ := cons_prefix_cons.mp hm
        obtain ⟨id, hdeclared, hid⟩ := htool hrole
        rw [answer, if_pos hrole, hid] at hanswer
        exact ⟨id, hresults (mem_resultIds_cons.mpr (.inl hanswer.symm)), hid, .inl hdeclared⟩
      | cons =>
        rw [cons_append, cons_prefix_cons] at hm
        obtain ⟨rfl, hm⟩ := hm
        obtain ⟨id, hid, hcall, hdeclared⟩ := ih hrest hm
        refine ⟨id, hid, hcall, ?_⟩
        rw [declaredIds, flatMap_cons, mem_append, ← declaredIds, hdecl, mem_filter]
        rcases hdeclared with hdeclared | hdeclared
        · rcases mem_append.mp hdeclared with hdeclared | hdeclared
          · exact .inl hdeclared
          · exact .inr (.inl ⟨hdeclared, by simpa using hid⟩)
        · exact .inr (.inr hdeclared)

theorem payload_keptFrom (hm : m ∈ keptFrom results declared messages) : hasPayload m = true := by
  induction messages generalizing declared with
  | nil => cases hm
  | cons m₀ rest ih =>
    rcases mem_append.mp hm with hm | hm
    · rcases keptRow_spec results declared m₀ with ⟨hrow, -⟩ | ⟨m', hrow, -, -, hpayload, -⟩
      · simp [hrow] at hm
      · obtain rfl : m = m' := by simpa [hrow] using hm
        exact hpayload
    · exact ih hm

end

/-- What is left has no orphaned result and no empty row; its calls are closed exactly when results
follow calls. -/
theorem resolved_keptFrom_iff (messages : List Message) :
    Resolved (keptFrom (resultIds messages) [] messages) ↔ ResultsFollow messages := by
  constructor
  · intro h
    exact (calls_keptFrom_iff [] messages).mp h.calls
  · intro h
    refine ⟨fun before m hm hrole => ?_, (calls_keptFrom_iff [] messages).mpr h,
      fun m hm hrole => ?_⟩
    · obtain ⟨id, -, hid, hdeclared⟩ := results_keptFrom (List.Subset.refl _) hm hrole
      rcases hdeclared with hdeclared | hdeclared
      · cases hdeclared
      · exact ⟨id, hdeclared, hid⟩
    · have hpayload := payload_keptFrom hm
      rw [hasPayload, hasCalls_eq] at hpayload
      cases hblank : isBlank m.content with
      | false => exact .inl rfl
      | true =>
        right
        intro hnil
        simp [hrole, hblank, hnil] at hpayload

/-! ## Sanitizing again -/

theorem keptRow_eq_self (hresult : m.role = .tool → ∃ id ∈ declared, m.toolCallId = some id)
    (hcalls : ∀ id ∈ m.declares, id ∈ results)
    (hpayload : m.role = .assistant → isBlank m.content = false ∨ m.callIds ≠ []) :
    keptRow results declared m = some m := by
  rw [keptRow]
  cases hrole : m.role with
  | tool =>
    obtain ⟨id, hid, hcall⟩ := hresult hrole
    simp [hcall, hid]
  | assistant =>
    have hkeep : keepResolvedCalls results.contains m = some m := by
      rw [declares, if_pos hrole, callIds] at hcalls
      rw [keepResolvedCalls]
      split
      · rfl
      · rfl
      next calls hne hsome =>
        rw [hsome] at hcalls
        have hall : (calls.filter fun call => results.contains call.id) = calls := by
          refine filter_eq_self.mpr fun call hcall => ?_
          have hmem := hcalls call.id (mem_map_of_mem hcall)
          simpa using hmem
        rw [hall, if_pos hne, ← hsome]
    have hkept : hasPayload m = true := by
      rw [hasPayload, hasCalls_eq]
      rcases hpayload hrole with htext | hcalls'
      · simp [htext]
      · simp [hcalls']
    rw [hkeep, Option.filter_some, if_pos hkept]
  | system => rfl
  | user => rfl

theorem keptFrom_eq_self (h : Resolved messages) (before : List Message)
    (heq : messages = before ++ rest) :
    keptFrom (resultIds messages) (declaredIds before) rest = rest := by
  induction rest generalizing before with
  | nil => rfl
  | cons m rest ih =>
    have hsplit : messages = (before ++ [m]) ++ rest := by rw [heq, append_assoc]; rfl
    have hsuffix : m :: rest <:+ messages := ⟨before, heq.symm⟩
    have hdeclared : declaredIds (before ++ [m]) = declaredIds before ++ m.declares := by
      simp [declaredIds]
    rw [keptFrom, keptRow_eq_self]
    · rw [← hdeclared, ih _ hsplit]
      rfl
    · exact h.results before m ⟨rest, hsplit.symm⟩
    · intro id hid
      rw [hsplit, resultIds_append]
      exact mem_append_right _ (h.calls m rest hsuffix id hid)
    · exact h.payload m (hsuffix.subset mem_cons_self)

/-- **One pass resolves everything, for good, exactly when results follow calls.** -/
theorem sanitize_resolved_iff (parseJson : String → Option Json) (messages : List Message) :
    ∃ outcome, sanitize parseJson messages none none = .ok outcome ∧
      ((Resolved outcome.messages ∧
          ∃ again, sanitize parseJson outcome.messages none none = .ok again ∧
            again.messages = outcome.messages) ↔
        ResultsFollow messages) := by
  obtain ⟨outcome, houtcome, hkept⟩ := sanitize_eq_ok parseJson messages
  refine ⟨outcome, houtcome, ?_⟩
  rw [← resolved_keptFrom_iff, ← hkept]
  refine and_iff_left_of_imp fun hresolved => ?_
  obtain ⟨again, hagain, hkept'⟩ := sanitize_eq_ok parseJson outcome.messages
  refine ⟨again, hagain, ?_⟩
  rw [hkept']
  exact keptFrom_eq_self hresolved [] rfl

/-- An assistant that says nothing and calls a tool. -/
def callRow (id : String) : Message :=
  ⟨.assistant, "", [], some [⟨id, "read", .null⟩], none, none, none, none, 0, none, none⟩

def resultRow (id : String) : Message :=
  ⟨.tool, "done", [], none, some id, none, none, none, 0, none, none⟩

/-- The only result of a call was recorded before it: the call is kept, open, and the result is
dropped; the next pass drops the call too. -/
theorem misplacedResult_open :
    ∃ outcome again, sanitize (fun _ => none) [resultRow "x", callRow "x"] none none = .ok outcome ∧
      outcome.messages = [callRow "x"] ∧ ¬ Resolved outcome.messages ∧
      sanitize (fun _ => none) outcome.messages none none = .ok again ∧ again.messages = [] := by
  obtain ⟨outcome, houtcome, hkept⟩ := sanitize_eq_ok (fun _ => none) [resultRow "x", callRow "x"]
  have hcall : outcome.messages = [callRow "x"] := hkept.trans rfl
  obtain ⟨again, hagain, hkept'⟩ := sanitize_eq_ok (fun _ => none) outcome.messages
  refine ⟨outcome, again, houtcome, hcall, fun hresolved => ?_, hagain, ?_⟩
  · rw [hcall] at hresolved
    have hresult := hresolved.calls (callRow "x") [] (suffix_refl _) "x" (by decide)
    cases hresult
  · rw [hkept', hcall]
    rfl

end Octos.Session
