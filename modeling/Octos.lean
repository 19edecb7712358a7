import Octos.Fleet.Settlement
import Octos.Fleet.Admission
import Octos.Fleet.Recovery
import Octos.Fleet.Progress
import Octos.Ledger.Monotone
import Octos.Ledger.Exhaustion
import Octos.Ledger.Clear
import Octos.Ledger.Tasks
import Octos.Findings.Streaming
import Octos.Agent.Pairing
import Octos.Agent.PlanCarry
import Octos.Agent.Refit
import Octos.Agent.Rewrites
import Octos.Core.Utils
import Octos.Tools.DiffEdit
import Octos.Tools.PatchAtomicity
import Octos.Tools.EditUnique
import Octos.UiLedger.Cursors
import Octos.UiLedger.Barrier
import Octos.Session.Windows
import Octos.Session.Resume
import Octos.Tasks.Verdicts
import Octos.Tasks.Recovery
import Octos.Tasks.Fanout
import Octos.Tasks.FailureSignals
import Octos.Credentials.Resets
import Octos.Credentials.Refreshes
import Octos.Scope.Isolation
import Octos.Continuations.Claims
import Octos.Supervision.Revisions
import Octos.Supervision.Loads
import Octos.Redaction.Secrecy
import Octos.Supervision.Identity
import Octos.Context.Trimming
import Octos.Bus.Markdown
