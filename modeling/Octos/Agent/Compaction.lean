import Octos.Agent.Messages
import Octos.Base.Binary64
import Octos.Base.Text

/-!
# Compacting a conversation

The extractive summary of old messages within a token budget. The newest plan of the conversation is
put in front of the summary as a block between two sentinels, and the next pass finds it there.

Texts are lists of characters. Reading a tool's arguments from a text of JSON is a parameter.
-/

namespace Octos.Agent

/-- The tokens of some characters that are not ASCII: their number as a single, divided by 1.5 as a
single, rounded down. A quotient below `2 ^ 22` is a multiple of a quarter or less before it is
rounded down, so there the division of numbers gives the same. -/
def nonAsciiTokens (n : ℕ) : ℕ :=
  let single := roundTo (2 ^ (Nat.log2 n - 23)) n
  let quotient := 2 * single / 3
  if quotient < 2 ^ 22 then quotient
  else if quotient < 2 ^ 23 then roundTo 3 (4 * single) / 3 / 2
  else roundTo (3 * 2 ^ (Nat.log2 quotient - 23)) (2 * single) / 3

def estimateTokens (text : Text) : ℕ :=
  let asciiChars := text.countP (·.toNat < 0x80)
  max (asciiChars / 4 + nonAsciiTokens (text.length - asciiChars)) 1

/-! ## Plans -/

inductive PlanItemStatus
  | pending | inProgress | completed

/-- The call that a dispatcher call stands for. -/
def logicalCall (name : String) (args : Json) : String × Json :=
  if name = "run_tool" then
    match (args.get? "name").bind Json.asStr?, args.get? "arguments" with
    | some inner, some innerArgs =>
      if innerArgs.isObject ∧ inner ≠ "run_tool" ∧ inner ≠ "discover_tools" then (inner, innerArgs)
      else (name, args)
    | _, _ => (name, args)
  else (name, args)

def planItem (item : Json) : String × PlanItemStatus :=
  let title := (["step", "title", "content", "text"].findSome? fun k =>
    (item.get? k).bind Json.asStr?).getD ""
  let status := match (item.get? "status").bind Json.asStr? with
    | some s =>
      if s ∈ ["in_progress", "in-progress", "active", "running"] then .inProgress
      else if s ∈ ["completed", "complete", "done"] then .completed
      else .pending
    | none => .pending
  (title, status)

def normalizePlan (args : Json) : List (String × PlanItemStatus) :=
  ((((args.get? "plan").or (args.get? "items")).bind Json.asArray?).getD []).map planItem

def PlanItemStatus.marker : PlanItemStatus → Text
  | .completed => ['[', 'x', ']']
  | .inProgress => ['[', '>', ']']
  | .pending => ['[', ' ', ']']

def planTitleMaxBytes : ℕ := 120

def planSnapshotMaxBytes : ℕ := 1500

/-- The line of an item; an item without a title has none. -/
def planLine (item : String × PlanItemStatus) : Text :=
  let title := (trim item.1.toList).filter (!isControl ·)
  if title = [] then []
  else
    '-' :: ' ' :: (item.2.marker ++ ' ' :: truncateUtf8 title planTitleMaxBytes ['…'] ++ ['\n'])

section

variable (parse : String → Option Json)

/-- The arguments of an update call as a checklist. -/
def renderPlanChecklist (args : Json) : Option Text :=
  let parsed := match args with
    | .str raw => parse raw
    | other => some other
  parsed.bind fun args =>
    let body := trimEnd ((normalizePlan args).flatMap planLine)
    if body = [] then none else some body

/-! ## The block -/

def planBlockBegin : Text :=
  ("## Task plan as last declared (background state — the newest user message decides what " ++
    "happens next)").toList

def planBlockEnd : Text := "(end of plan state)".toList

def extractPlanBlock (text : Text) : Option Text := do
  let (_, after) ← splitFirst planBlockBegin text
  let (body, _) ← splitFirst planBlockEnd after
  if trim body = [] then none else some (trim body)

/-- Cut out the blocks. Each step removes an end sentinel at least, so as many steps as characters
are enough. -/
def cutPlanBlocks : ℕ → Text → Text
  | 0, out => out
  | steps + 1, out =>
    match splitFirst planBlockBegin out with
    | none => out
    | some (before, after) =>
      match splitFirst planBlockEnd (planBlockBegin ++ after) with
      | none => out
      | some (_, rest) => cutPlanBlocks steps (before ++ rest)

/-- Remove every block and every line that holds a sentinel. -/
def stripPlanBlocks (summary : Text) : Text :=
  let out := cutPlanBlocks summary.length summary
  let out :=
    if (splitFirst planBlockBegin out).isSome || (splitFirst planBlockEnd out).isSome then
      joinLines ((lines out).filter fun line =>
        (splitFirst planBlockBegin line).isNone && (splitFirst planBlockEnd line).isNone)
    else out
  trimStart out

def planTruncated : Text := '\n' :: "… (plan truncated)".toList

def prependPlanBlock (summary : Text) (plan : Option Text) (maxPlanBytes : ℕ) : Text :=
  match plan with
  | none => summary
  | some plan =>
    let plan := truncateUtf8 plan (max 200 (min maxPlanBytes planSnapshotMaxBytes)) planTruncated
    planBlockBegin ++
      '\n' :: (plan ++ '\n' :: (planBlockEnd ++ '\n' :: '\n' :: stripPlanBlocks summary))

def planOfCall (call : ToolCall) : Option Text :=
  let logical := logicalCall call.name call.arguments
  if logical.1 = "update_plan" then renderPlanChecklist parse logical.2 else none

/-- The plan that a message states: its last update call that has one, or the block in its text. -/
def planOf (m : Message) : Option Text :=
  ((m.toolCalls.getD []).reverse.findSome? (planOfCall parse)).or
    (extractPlanBlock m.content.toList)

def latestPlanSnapshot (messages : List Message) : Option Text :=
  messages.reverse.findSome? (planOf parse)

/-! ## The summary -/

/-- The first line of a text, cut after some characters. -/
def firstLine (s : Text) (maxChars : ℕ) : Text :=
  let line := (lines s).head?.getD []
  if line.length ≤ maxChars then line else line.take maxChars ++ "...".toList

def findToolName (m : Message) (context : List Message) : String :=
  (m.toolCallId.bind fun target =>
    context.reverse.findSome? fun row =>
      (row.toolCalls.getD []).findSome? fun call =>
        if call.id = target then some (logicalCall call.name call.arguments).1 else none).getD
  "unknown_tool"

def summarizeMessage (m : Message) (context : List Message) : Text :=
  match m.role with
  | .user =>
    "> User: ".toList ++ firstLine m.content.toList 200 ++
      if m.media.isEmpty then [] else " [media omitted]".toList
  | .assistant =>
    let calls := (m.toolCalls.getD []).map fun call =>
      "- Called ".toList ++ (logicalCall call.name call.arguments).1.toList
    let said :=
      if m.content = "" then []
      else [(if m.toolCalls.isSome then "  ".toList else "> Assistant: ".toList) ++
        firstLine m.content.toList 200]
    joinLines (calls ++ said)
  | .tool =>
    let status := if m.content.startsWith "Error:" then "error" else "ok"
    "  -> ".toList ++ (findToolName m context).toList ++ ": ".toList ++ status.toList ++
      " - ".toList ++ firstLine m.content.toList 100
  | .system => "> Context: ".toList ++ firstLine m.content.toList 200

def omittedLine (n : ℕ) : Text := ("... (" ++ toString n ++ " earlier messages omitted)").toList

/-- The lines of the messages, as long as the target is not reached and the next one fits. -/
def summaryLines (context : List Message) (target budget : ℕ) : List Message → ℕ → List Text
  | [], _ => []
  | m :: rest, running =>
    if target ≤ running then [omittedLine (rest.length + 1)]
    else
      let line := summarizeMessage m context
      if budget < running + estimateTokens line then [omittedLine (rest.length + 1)]
      else line :: summaryLines context target budget rest (running + estimateTokens line)

/-- The summary of some messages within a budget. The target is the budget times 0.4 as a double,
rounded down. -/
def compactMessages (messages : List Message) (budgetTokens : ℕ) : Text :=
  let plan := latestPlanSnapshot parse messages
  let planBudgetTokens := plan.elim 0 fun p => min (estimateTokens p + 24) (2 ^ 32 - 1)
  let budget := max (budgetTokens - planBudgetTokens) 64
  let header := ("## Conversation Summary (compacted from " ++ toString messages.length ++
    " messages)\n").toList
  let body := summaryLines messages (2 * budget / 5) budget messages (estimateTokens header)
  prependPlanBlock (joinLines (header :: body)) plan (planBudgetTokens * 4)

end

end Octos.Agent
