import Mathlib.Data.String.Basic
import Octos.Base.Json

/-!
# Conversation messages

The rows of a conversation as the agent loop keeps them.
-/

namespace Octos.Agent

inductive MessageRole
  | system | user | assistant | tool
  deriving DecidableEq

structure ToolCall where
  id : String
  name : String
  arguments : Json

/-- A row of a conversation. -/
structure Message where
  role : MessageRole
  content : String
  media : List String
  toolCalls : Option (List ToolCall)
  toolCallId : Option String
  reasoningContent : Option String
  clientMessageId : Option String
  threadId : Option String
  timestamp : ℤ
  source : Option String
  participant : Option String

namespace Message

def isTool (m : Message) : Bool := m.role = .tool

def callIds (m : Message) : List String := (m.toolCalls.getD []).map (·.id)

def declares (m : Message) : List String := if m.role = .assistant then m.callIds else []

def hasToolCalls (m : Message) : Bool := m.declares ≠ []

/-- The ids that the row answers as a tool result. -/
def answer (m : Message) : Option String := if m.role = .tool then m.toolCallId else none

end Message

def declaredIds (messages : List Message) : List String := messages.flatMap (·.declares)

def resultIds (messages : List Message) : List String := messages.filterMap (·.answer)

end Octos.Agent
