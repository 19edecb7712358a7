import Mathlib.Data.String.Basic
import Octos.Base.Checked
import Octos.Base.Json
import Octos.Base.Table

/-!
# The controller digest

The bounded view of the finding log that the controller reads: the live findings and the overturn
edges above a watermark, oldest first, and three aggregate sections. A view over its budget is
trimmed section by section, and the watermark it returns is the greatest sequence among the findings
and edges it kept.
-/

namespace Octos.Findings

/-! ## Records -/

/-- What a finding asserts about its claim. -/
inductive FindingStatus
  | confirmed | predicted | ruledOut
  deriving DecidableEq

/-- A finding, as far as the digest reads it. -/
structure Finding where
  id : String
  seq : UInt64
  taskId : Option String
  claim : String
  status : FindingStatus
  component : String
  config : Table String String
  supersedes : List String
  costTokens : UInt64

structure DigestOptions where
  sinceSeq : UInt64
  currentConfig : Table String String
  maxChars : ℕ
  recentWindow : ℕ
  clusterMinPaths : ℕ

structure DigestFinding where
  id : String
  seq : UInt64
  claim : String
  status : FindingStatus
  component : String
  taskId : Option String

structure Overturn where
  by' : String
  bySeq : UInt64
  overturned : String
  oldClaim : String
  newClaim : String

/-- A claim whose build has moved underneath it. -/
structure StaleFinding where
  id : String
  claim : String
  component : String
  drifted : Table String (String × String)

/-- Distinct paths whose recent findings cite one component. -/
structure ClusterHint where
  component : String
  paths : List String
  findingIds : List String

/-- Effort against learning on a path. -/
structure PathCost where
  path : String
  tokens : UInt64
  findings : ℕ
  confirmed : ℕ
  ruledOut : ℕ

structure Dropped where
  name : String
  omitted : ℕ
  deriving DecidableEq

structure Digest where
  newFindings : List DigestFinding
  overturns : List Overturn
  stale : List StaleFinding
  clusterHints : List ClusterHint
  costByPath : List PathCost
  dropped : List Dropped
  watermark : UInt64

/-! ## Sizes -/

def FindingStatus.name : FindingStatus → String
  | .confirmed => "Confirmed"
  | .predicted => "Predicted"
  | .ruledOut => "RuledOut"

def DigestFinding.toJson (f : DigestFinding) : Json :=
  .obj [("id", .str f.id), ("seq", .num f.seq.toNat), ("claim", .str f.claim),
    ("status", .str f.status.name), ("component", .str f.component),
    ("task_id", f.taskId.elim .null .str)]

def Overturn.toJson (o : Overturn) : Json :=
  .obj [("by", .str o.by'), ("by_seq", .num o.bySeq.toNat), ("overturned", .str o.overturned),
    ("old_claim", .str o.oldClaim), ("new_claim", .str o.newClaim)]

def StaleFinding.toJson (s : StaleFinding) : Json :=
  .obj [("id", .str s.id), ("claim", .str s.claim), ("component", .str s.component),
    ("drifted", .obj (s.drifted.entries.map fun p => (p.1, .arr [.str p.2.1, .str p.2.2])))]

def ClusterHint.toJson (h : ClusterHint) : Json :=
  .obj [("component", .str h.component), ("paths", .arr (h.paths.map .str)),
    ("finding_ids", .arr (h.findingIds.map .str))]

def PathCost.toJson (c : PathCost) : Json :=
  .obj [("path", .str c.path), ("tokens", .num c.tokens.toNat), ("findings", .num c.findings),
    ("confirmed", .num c.confirmed), ("ruled_out", .num c.ruledOut)]

def Dropped.toJson (d : Dropped) : Json :=
  .obj [("section", .str d.name), ("omitted", .num d.omitted)]

def Digest.toJson (d : Digest) : Json :=
  .obj [("new_findings", .arr (d.newFindings.map (·.toJson))),
    ("overturns", .arr (d.overturns.map (·.toJson))), ("stale", .arr (d.stale.map (·.toJson))),
    ("cluster_hints", .arr (d.clusterHints.map (·.toJson))),
    ("cost_by_path", .arr (d.costByPath.map (·.toJson))),
    ("dropped", .arr (d.dropped.map (·.toJson))), ("watermark", .num d.watermark.toNat)]

def Digest.size (d : Digest) : ℕ := d.toJson.size

/-! ## Sections -/
variable (findings : List Finding)

def supersededIds : List String := findings.flatMap (·.supersedes)

def live : List Finding :=
  findings.filter fun f => f.id ∉ supersededIds findings

def byId : Table String Finding :=
  findings.foldl (fun t f => t.insert f.id f) .empty

def Finding.line (f : Finding) : DigestFinding :=
  { id := f.id, seq := f.seq, claim := f.claim, status := f.status, component := f.component,
    taskId := f.taskId }

def Finding.edges (f : Finding) : List Overturn :=
  f.supersedes.map fun old =>
    { by' := f.id, bySeq := f.seq, overturned := old,
      oldClaim := ((byId findings).get old).elim "" (·.claim), newClaim := f.claim }

def pendingFindings (since : UInt64) : List DigestFinding :=
  (((live findings).filter fun f => since < f.seq).map (·.line)).insertionSort
    fun a b => a.seq ≤ b.seq

def pendingOverturns (since : UInt64) : List Overturn :=
  ((findings.filter fun f => since < f.seq).flatMap (·.edges findings)).insertionSort
    fun a b => a.bySeq ≤ b.bySeq

/-- The components on which a finding disagrees with the current build. -/
def drift (f : Finding) (current : Table String String) : Table String (String × String) :=
  f.config.entries.foldl
    (fun t p => match current.get p.1 with
      | some now => if now ≠ p.2 then t.insert p.1 (p.2, now) else t
      | none => t)
    .empty

def staleFindings (current : Table String String) : List StaleFinding :=
  ((live findings).filterMap fun f =>
    let drifted := drift f current
    if drifted.entries.isEmpty then none
    else some { id := f.id, claim := f.claim, component := f.component, drifted }).reverse

/-- Paths and findings of the recent live findings, by component. -/
def byComponent (recent : List Finding) : Table String (Table String Unit × List String) :=
  recent.foldl
    (fun t f =>
      let entry := (t.get f.component).getD (.empty, [])
      let paths := f.taskId.elim entry.1 fun task => entry.1.insert task ()
      t.insert f.component (paths, entry.2 ++ [f.id]))
    .empty

/-- The components that enough paths cite, the most cited first. -/
def clusterHints (window minPaths : ℕ) : List ClusterHint :=
  let recent := (live findings).reverse.take window
  (((byComponent recent).entries.filter fun p => minPaths ≤ p.2.1.entries.length).map fun p =>
    { component := p.1, paths := p.2.1.entries.map Prod.fst, findingIds := p.2.2 }).insertionSort
    fun a b => b.paths.length < a.paths.length ∨
      (a.paths.length = b.paths.length ∧ a.component ≤ b.component)

def PathCost.add (c : PathCost) (f : Finding) : PathCost :=
  { c with
    tokens := saturatingAdd c.tokens f.costTokens
    findings := c.findings + 1
    confirmed := c.confirmed + if f.status = .confirmed then 1 else 0
    ruledOut := c.ruledOut + if f.status = .ruledOut then 1 else 0 }

def costByPath : List PathCost :=
  (findings.foldl
    (fun t f => match f.taskId with
      | none => t
      | some path => t.insert path (((t.get path).getD ⟨path, 0, 0, 0, 0⟩).add f))
    (.empty : Table String PathCost)).values

/-! ## The budget -/

def noteDropped (name : String) (omitted : ℕ) : List Dropped → List Dropped
  | [] => [⟨name, omitted⟩]
  | x :: xs =>
    if x.name = name then { x with omitted := x.omitted + omitted } :: xs
    else x :: noteDropped name omitted xs

/-- The length a cut keeps: the older half, and a single item as it is. -/
def keep (n : ℕ) : ℕ := if n = 1 then 1 else n / 2

def cut {α : Type} (v : List α) (name : String) (dropped : List Dropped) :
    List α × List Dropped :=
  if v.isEmpty then (v, dropped)
  else (v.take (keep v.length), noteDropped name (v.length - keep v.length) dropped)

/-- Cut the first section that is not empty, the cheapest signal first. -/
def Digest.cutFirst (d : Digest) : Option Digest :=
  if d.costByPath ≠ [] then
    let (costByPath, dropped) := cut d.costByPath "cost_by_path" d.dropped
    some { d with costByPath, dropped }
  else if d.clusterHints ≠ [] then
    let (clusterHints, dropped) := cut d.clusterHints "cluster_hints" d.dropped
    some { d with clusterHints, dropped }
  else if d.stale ≠ [] then
    let (stale, dropped) := cut d.stale "stale" d.dropped
    some { d with stale, dropped }
  else if d.overturns ≠ [] then
    let (overturns, dropped) := cut d.overturns "overturns" d.dropped
    some { d with overturns, dropped }
  else if d.newFindings ≠ [] then
    let (newFindings, dropped) := cut d.newFindings "new_findings" d.dropped
    some { d with newFindings, dropped }
  else none

/-- The trimming loop. A pass that does not lower the size is the last one, so as many passes as the
size are enough. -/
def enforceLoop (maxChars : ℕ) : ℕ → Digest → Digest
  | 0, d => d
  | passes + 1, d =>
    if d.size ≤ maxChars then d
    else match d.cutFirst with
      | none => d
      | some d' => if d.size ≤ d'.size then d' else enforceLoop maxChars passes d'

def enforceBudget (d : Digest) (maxChars : ℕ) : Digest := enforceLoop maxChars (d.size + 1) d

def untrimmed (opts : DigestOptions) : Digest where
  newFindings := pendingFindings findings opts.sinceSeq
  overturns := pendingOverturns findings opts.sinceSeq
  stale := staleFindings findings opts.currentConfig
  clusterHints := clusterHints findings opts.recentWindow opts.clusterMinPaths
  costByPath := costByPath findings
  dropped := []
  watermark := 0

/-- The greatest sequence of the items kept, or the watermark of the request. -/
def nextWatermark (d : Digest) (since : UInt64) : UInt64 :=
  match (d.newFindings.map (·.seq)).max?, (d.overturns.map (·.bySeq)).max? with
  | some n, some o => max n o
  | some n, none => n
  | none, some o => o
  | none, none => since

def digest (opts : DigestOptions) : Digest :=
  let out := enforceBudget (untrimmed findings opts) opts.maxChars
  { out with watermark := nextWatermark out opts.sinceSeq }

end Octos.Findings
