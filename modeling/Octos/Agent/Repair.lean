import Octos.Agent.Messages

/-!
# Repairing a conversation

The passes that the loop runs over a conversation before it is sent: later system rows are folded
into the first row, tool rows are moved behind the assistant that declares them, unmatched calls and
results are stripped, and results that are still missing are filled in. Each pass also says whether
it changed anything.
-/

namespace Octos.Agent

/-! ## System rows -/

/-- A row that reports earlier content: a background task or a summary. -/
def Message.isContextNote (m : Message) : Bool :=
  m.content.startsWith "[Background task" || m.content.startsWith "[Conversation summary]"

/-- A system row that reports earlier content becomes a user row. -/
def Message.asNote (m : Message) : Message :=
  if m.role = .system ∧ m.isContextNote then
    { m with role := .user, content := "[System note] " ++ m.content }
  else m

/-- Fold the later system rows into the first row. -/
def normalizeSystemMessages : List Message → List Message × Bool
  | [] => ([], false)
  | [m] => ([m], false)
  | first :: rest =>
    let noted := rest.map (·.asNote)
    let changed := rest.any fun m => m.role = .system ∧ m.isContextNote
    let extra := noted.filter (·.role = .system)
    if extra.isEmpty then (first :: noted, changed)
    else
      let texts := (extra.map (·.content)).filter (· ≠ "")
      let content := texts.foldl (fun text t => text ++ "\n\n" ++ t) first.content
      ({ first with content } :: noted.filter (·.role ≠ .system), true)

/-! ## Order -/

/-- Walk back over the tool rows to the nearest other row; it owns the id if it declares it. -/
def ownerFrom (messages : List Message) (id : String) : ℕ → Option ℕ
  | 0 => none
  | k + 1 => match messages[k]? with
    | none => none
    | some m =>
      if m.role = .tool then ownerFrom messages id k
      else if m.role = .assistant ∧ id ∈ m.callIds then some k
      else none

variable (messages : List Message)

/-- The assistant that owns the tool row at an index; a row without one is stranded. -/
def ownerOf (idx : ℕ) : Option ℕ :=
  match messages[idx]? with
  | none => none
  | some m => match m.toolCallId with
    | none => none
    | some id => ownerFrom messages id idx

/-- The rows taken out for an assistant, by id; the first entry of an id counts. -/
abbrev Collected := List (String × Message)

/-- The state of the scan for the rows of the assistant at `i`. -/
structure Gathering where
  messages : List Message
  i : ℕ
  collected : Collected
  changed : Bool

/-- Take out the rows of the assistant at `i` and the stranded rows that it declares, from the row
`j` on. Each step moves on or removes a row, so as many steps as there are rows are enough. -/
def gather (expected : List String) : ℕ → Gathering → ℕ → Gathering
  | 0, g, _ => g
  | steps + 1, g, j =>
    match g.messages[j]? with
    | none => g
    | some m =>
      if j = g.i then gather expected steps g (j + 1)
      else match m.answer.filter (· ∈ expected) with
        | none => gather expected steps g (j + 1)
        | some id =>
          if (ownerOf g.messages j).any (· ≠ g.i) then gather expected steps g (j + 1)
          else
            gather expected steps
              { messages := g.messages.eraseIdx j
                i := if j < g.i then g.i - 1 else g.i
                collected := (id, m) :: g.collected
                changed := true }
              j

/-- Put the rows taken out back from `pos` on, one for each id, in the order of the calls. -/
def reinsert : List String → Collected → List Message → ℕ → List Message × ℕ
  | [], _, messages, pos => (messages, pos)
  | id :: ids, collected, messages, pos =>
    match collected.find? (·.1 = id) with
    | some (_, m) => reinsert ids (collected.filter (·.1 ≠ id)) (messages.insertIdx pos m) (pos + 1)
    | none => reinsert ids collected messages pos

/-- The walk over the assistants from the row `i` on. -/
def repairOrderFrom : ℕ → List Message → ℕ → Bool → List Message × Bool
  | 0, messages, _, changed => (messages, changed)
  | steps + 1, messages, i, changed =>
    match messages[i]? with
    | none => (messages, changed)
    | some a =>
      if a.hasToolCalls then
        let g := gather a.callIds messages.length ⟨messages, i, [], changed⟩ 0
        let p := reinsert a.callIds g.collected g.messages (g.i + 1)
        repairOrderFrom steps p.1 p.2 g.changed
      else repairOrderFrom steps messages (i + 1) changed

/-- Gather the tool rows behind their assistants. -/
def repairMessageOrder : List Message × Bool :=
  repairOrderFrom messages.length messages 0 false

/-- An assistant with a call that is not matched. -/
def Message.isUnmatched (matched : List String) (m : Message) : Bool :=
  m.declares.any (· ∉ matched)

/-- Strip the calls of an assistant with a call that is not matched. -/
def Message.strip (matched : List String) (m : Message) : Message :=
  if m.isUnmatched matched then
    let names := (m.toolCalls.getD []).map (·.name)
    { m with
      content :=
        if m.content = "" then "[Called tools: " ++ ", ".intercalate names ++ "]" else m.content
      toolCalls := none }
  else m

/-- Strip the calls and results that are not matched. -/
def repairToolPairs : List Message × Bool :=
  let matched := (declaredIds messages).filter (· ∈ resultIds messages)
  let stripped := messages.map (·.strip matched)
  let remaining := declaredIds stripped
  let kept := stripped.filter fun m => m.role = .tool → ∃ id ∈ m.toolCallId, id ∈ remaining
  (kept, messages.any (·.isUnmatched matched) || kept.length ≠ messages.length)

/-! ## Missing results -/

/-- The row that stands in for the result of a call. -/
def placeholder (a : Message) (call : ToolCall) : Message where
  role := .tool
  content := "[Tool '" ++ call.name ++ "' result was lost — no output available]"
  media := []
  toolCalls := none
  toolCallId := some call.id
  reasoningContent := none
  clientMessageId := none
  threadId := none
  timestamp := a.timestamp
  source := none
  participant := none

/-- The placeholders for the calls of an assistant that are not answered, one for each id. -/
def placeholders (a : Message) (existing : List String) : List ToolCall → List String → List Message
  | [], _ => []
  | call :: calls, synthesised =>
    if call.id ∈ existing ∨ call.id ∈ synthesised then placeholders a existing calls synthesised
    else placeholder a call :: placeholders a existing calls (call.id :: synthesised)

/-- A row that ends the window of an assistant. -/
def Message.endsWindow (m : Message) : Bool := m.role = .assistant ∨ m.role = .user

/-- Fill in the missing results. The walk only goes forward, so it is a recursion on the rows that
are left. -/
def synthesizeFrom : ℕ → List Message → List Message × Bool
  | 0, messages => (messages, false)
  | _ + 1, [] => ([], false)
  | steps + 1, m :: rest =>
    if m.hasToolCalls then
      let window := rest.takeWhile (!·.endsWindow)
      let missing := placeholders m (resultIds window) (m.toolCalls.getD []) []
      let (tail, changed) := synthesizeFrom steps (rest.drop window.length)
      (m :: window ++ missing ++ tail, !missing.isEmpty || changed)
    else
      let (tail, changed) := synthesizeFrom steps rest
      (m :: tail, changed)

/-- Give each declared call a result row. -/
def synthesizeMissingToolResults : List Message × Bool :=
  synthesizeFrom messages.length messages

/-- The repair passes of the loop. -/
def repairConversation : List Message :=
  let normalized := (normalizeSystemMessages messages).1
  let ordered := (repairMessageOrder normalized).1
  let paired := (repairToolPairs ordered).1
  (synthesizeMissingToolResults paired).1

end Octos.Agent
