import Octos.Base.FileTree
import Octos.Tools.CodexHunks

/-!
# Patches over several files

`apply_patch` plans the sections of a patch against a directory tree and an overlay of the paths
that the patch has touched so far, and then executes the plan. The overlay says for a path which
text a section has left there, or that it has removed the file; all other paths are those of the
disk. Planning changes nothing on the disk.

How a path of the patch is resolved and what reading a file gives are parameters: the scope of a
session and the decoding of a file.
-/

namespace Octos.Tools

variable {β : Type}

/-! ## Patches and trees -/

inductive PatchOp
  | add (path : String) (content : Text)
  | delete (path : String)
  | update (path : String) (moveTo : Option String) (hunks : List UpdateHunk)

def PatchOp.label : PatchOp → String
  | add path _ => "Add File: " ++ path
  | delete path => "Delete File: " ++ path
  | update path (some dest) _ => "Update File: " ++ path ++ " -> " ++ dest
  | update path none _ => "Update File: " ++ path

abbrev Path := List String

/-- A file as it was found, of which only the text that reading it gives matters, or with the text
that a section has written. -/
inductive Content (β : Type)
  | original (b : β)
  | written (s : Text)

/-- A directory tree without links. -/
abbrev Tree (β : Type) := FileTree String (Content β)

/-- Why a section is not valid. A link cannot be in a tree here. -/
inductive PlanError
  | path (reason : String)
  | alreadyExists
  | notFound
  | notRegular
  | unreadable (reason : String)
  | hunk (e : HunkError)
  | destinationExists (display : String)

structure PlanFailure where
  sectionNo : ℕ
  label : String
  detail : PlanError

/-! ## Planning -/

/-- What the patch has done so far to a path: the text it has left there, or that it has removed the
file. -/
abbrev Overlay := Path → Option (Option Text)

def Overlay.insert (overlay : Overlay) (p : Path) (state : Option Text) : Overlay :=
  fun q => if q = p then some state else overlay q

inductive OpKind
  | add
  | update
  | delete
  | move
deriving DecidableEq

inductive PlannedChange
  | write (path : Path) (display : String) (content : Text) (op : OpKind)
  | remove (path : Path) (display : String)
  | move (source : Path) (fromDisplay : String) (dest : Path) (toDisplay : String) (content : Text)

structure PlannedSection where
  sectionNo : ℕ
  label : String
  change : PlannedChange

section

variable (resolve : String → Except String Path) (read : β → Except String Text)

def Content.text : Content β → Except String Text
  | original b => read b
  | written s => pure s

/-- Whether a path is taken, by a file or a directory. -/
def overlayEntryExists (disk : Tree β) (overlay : Overlay) (p : Path) : Bool :=
  match overlay p with
  | some state => state.isSome
  | none => (disk.entry p).isSome

/-- The file at a path, as a section finds it: its text, if the patch has written it, or the file on
the disk. -/
def fileEntry (disk : Tree β) (overlay : Overlay) (p : Path) : Except PlanError (Content β) :=
  match overlay p with
  | some (some content) => pure (.written content)
  | some none => throw .notFound
  | none =>
    match disk.entry p with
    | some (.file c) => pure c
    | none => throw .notFound
    | some .dir => throw .notRegular

def resolvePatchPath (path : String) : Except PlanError Path := (resolve path).mapError .path

def destination (resolved : Path) : Option String → Except PlanError (Option (Path × String))
  | none => pure none
  | some display => do
    let dest ← resolvePatchPath resolve display
    pure (if dest ≠ resolved then some (dest, display) else none)

/-- The plan of one section, and the overlay after it. -/
def planOp (disk : Tree β) (overlay : Overlay) :
    PatchOp → Except PlanError (PlannedChange × Overlay)
  | .add path content => do
    let resolved ← resolvePatchPath resolve path
    if overlayEntryExists disk overlay resolved then throw .alreadyExists
    pure (.write resolved path content .add, overlay.insert resolved (some content))
  | .delete path => do
    let resolved ← resolvePatchPath resolve path
    let _ ← fileEntry disk overlay resolved
    pure (.remove resolved path, overlay.insert resolved none)
  | .update path moveTo hunks => do
    let resolved ← resolvePatchPath resolve path
    let file ← fileEntry disk overlay resolved
    let current ← (file.text read).mapError .unreadable
    let updated ← (applyCodexHunks current hunks).mapError .hunk
    let dest ← destination resolve resolved moveTo
    match dest with
    | some dest =>
      if overlayEntryExists disk overlay dest.1 then throw (.destinationExists dest.2)
      pure (.move resolved path dest.1 dest.2 updated,
        (overlay.insert resolved none).insert dest.1 (some updated))
    | none => pure (.write resolved path updated .update, overlay.insert resolved (some updated))

def planFrom (disk : Tree β) (overlay : Overlay) (sectionNo : ℕ) :
    List PatchOp → Except PlanFailure (List PlannedSection)
  | [] => pure []
  | op :: ops => do
    let planned ← (planOp resolve read disk overlay op).mapError (⟨sectionNo, op.label, ·⟩)
    let rest ← planFrom disk planned.2 (sectionNo + 1) ops
    pure (⟨sectionNo, op.label, planned.1⟩ :: rest)

def planSections (disk : Tree β) (ops : List PatchOp) : Except PlanFailure (List PlannedSection) :=
  planFrom resolve read disk (fun _ => none) 1 ops

end

/-! ## Execution -/

/-- Whether the directories or the file itself could not be written. -/
inductive WriteFailure
  | parents
  | write

/-- What a failed section has left at a path. -/
inductive PartialNote
  | written
  | unknown

/-- A path that a failed section may have modified. -/
structure PartialPath where
  display : String
  resolved : Path
  note : PartialNote

inductive SectionError
  | write (failure : WriteFailure)
  | delete
  | sourceKept (toDisplay fromDisplay : String)

structure SectionFailure where
  error : SectionError
  partials : List PartialPath

structure ApplyFailure where
  sectionNo : ℕ
  label : String
  failure : SectionFailure

structure AppliedOp where
  op : OpKind
  created : Bool
  display : String
  fromDisplay : Option String
  touched : List Path

instance decidableWritable (t : Tree β) (p : Path) : Decidable (t.Writable p) :=
  inferInstanceAs (Decidable (_ ∧ _))

/-- The directories above a path are created and the file is written. Without
a failure from outside, a file above the path or a directory at it is what stops this, and then
nothing has changed. -/
def writeWithParents (t : Tree β) (p : Path) (content : Text) : Except WriteFailure (Tree β) :=
  if h : t.Writable p then .ok (t.put p (.written content) h)
  else .error (if t.openAbove p then .write else .parents)

def removeFile (t : Tree β) (p : Path) : Option (Tree β) :=
  match h : t.fileAt p with
  | some c => some (t.erase p c h)
  | none => none

/-- A failed write may have touched its file. -/
def writeFailurePartial (display : String) (p : Path) : WriteFailure → List PartialPath
  | .parents => []
  | .write => [⟨display, p, .unknown⟩]

/-- One planned change on the disk: the tree after it, and what is reported. -/
def applyChange (t : Tree β) : PlannedChange → Tree β × Except SectionFailure AppliedOp
  | .write path display content op =>
    match writeWithParents t path content with
    | .ok t' => (t', .ok ⟨op, op == .add, display, none, [path]⟩)
    | .error e => (t, .error ⟨.write e, writeFailurePartial display path e⟩)
  | .remove path display =>
    match removeFile t path with
    | some t' => (t', .ok ⟨.delete, false, display, none, [path]⟩)
    | none => (t, .error ⟨.delete, []⟩)
  | .move source fromDisplay dest toDisplay content =>
    match writeWithParents t dest content with
    | .error e => (t, .error ⟨.write e, writeFailurePartial toDisplay dest e⟩)
    | .ok t' =>
      match removeFile t' source with
      | some t'' => (t'', .ok ⟨.move, false, toDisplay, some fromDisplay, [source, dest]⟩)
      | none => (t', .error ⟨.sourceKept toDisplay fromDisplay, [⟨toDisplay, dest, .written⟩]⟩)

/-- The disk after a plan, the sections that were applied, and the failure that has stopped it. -/
structure Execution (β : Type) where
  disk : Tree β
  applied : List AppliedOp
  failure : Option ApplyFailure

def applyPlanned (t : Tree β) : List PlannedSection → Execution β
  | [] => ⟨t, [], none⟩
  | s :: rest =>
    let step := applyChange t s.change
    match step.2 with
    | .ok op =>
      let run := applyPlanned step.1 rest
      ⟨run.disk, op :: run.applied, run.failure⟩
    | .error failure => ⟨step.1, [], some ⟨s.sectionNo, s.label, failure⟩⟩

inductive PatchOutcome
  | invalid (failure : PlanFailure)
  | executed (applied : List AppliedOp) (failure : Option ApplyFailure)

/-- `apply_codex_patch` after parsing: the whole patch is validated before it is executed. -/
def applyCodexPatch (resolve : String → Except String Path) (read : β → Except String Text)
    (disk : Tree β) (ops : List PatchOp) : Tree β × PatchOutcome :=
  match planSections resolve read disk ops with
  | .error failure => (disk, .invalid failure)
  | .ok plan =>
    let run := applyPlanned disk plan
    (run.disk, .executed run.applied run.failure)

end Octos.Tools
