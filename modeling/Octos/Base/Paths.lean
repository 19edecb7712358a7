import Mathlib.Data.List.Infix

/-!
# Paths and what they name

A path of the file system as the components the standard library reads from its text, and the
resolution of a path against a file system: every component has to exist, symbolic links are
followed, and `..` leads to the parent of what was reached. The *place* of a path extends the
resolution to paths that do not exist: what is missing stands under the place of its parent with its
own name.
-/

namespace Octos

open List

/-! ## Paths -/

/-- A component of a path after its first one. -/
inductive Part
  | parentDir
  | normal (name : String)
deriving DecidableEq

/-- How a path begins: at the root, with a `.`, or with its first component. -/
inductive PathStart
  | root
  | dot
  | bare
deriving DecidableEq

/-- A path. Repeated separators and inner `.` components are not part of it. -/
structure Path where
  start : PathStart
  parts : List Part
deriving DecidableEq

/-- A component as `Path::components` yields it. -/
inductive Component
  | rootDir
  | curDir
  | inner (part : Part)
deriving DecidableEq

/-- The name a component adds when it is appended to a location. -/
def Part.names : Part → List String
  | .parentDir => []
  | .normal name => [name]

namespace Path

def components (p : Path) : List Component :=
  match p.start with
  | .root => .rootDir :: p.parts.map .inner
  | .dot => .curDir :: p.parts.map .inner
  | .bare => p.parts.map .inner

def isAbsolute (p : Path) : Bool := p.start == .root

/-- The components of `base` are the first ones of `p`. -/
def startsWith (p base : Path) : Bool := base.components.isPrefixOf p.components

def join (p : Path) (name : String) : Path := { p with parts := p.parts ++ [.normal name] }

def joinAll (p : Path) (names : List String) : Path :=
  { p with parts := p.parts ++ names.map .normal }

def absolute (q : List String) : Path := ⟨.root, q.map .normal⟩

theorem joinAll_cons (p : Path) (n : String) (names : List String) :
    p.joinAll (n :: names) = (p.join n).joinAll names := by
  simp [joinAll, join]

variable {p base : Path}

theorem startsWith_iff (hp : p.start = .root) (hb : base.start = .root) :
    p.startsWith base = true ↔ base.parts <+: p.parts := by
  rw [startsWith, isPrefixOf_iff_prefix, components, components, hp, hb]
  simp only [cons_prefix_cons, true_and]
  exact prefix_map_iff_of_injective fun _ _ h => Component.inner.inj h

theorem start_of_startsWith (h : p.startsWith base = true)
    (hb : base.start = .root) : p.start = .root := by
  rw [startsWith, isPrefixOf_iff_prefix] at h
  obtain ⟨t, ht⟩ := h
  obtain ⟨start, parts⟩ := p
  cases start with
  | root => rfl
  | dot => simp [components, hb] at ht
  | bare => cases parts <;> simp [components, hb] at ht

theorem startsWith_absolute {q r : List String} :
    (absolute q).startsWith (absolute r) = true ↔ r <+: q :=
  (startsWith_iff rfl rfl).trans (prefix_map_iff_of_injective fun _ _ h => Part.normal.inj h)

end Path

/-! ## Resolving a path -/

/-- A file system as path resolution sees it. Locations are lists of names from the root. -/
structure FileSystem where
  isDir : List String → Bool
  /-- The location of an entry of a directory, after following links. -/
  lookup : List String → String → Option (List String)
  cwd : List String
  isDir_root : isDir [] = true
  isDir_of_lookup : ∀ q n q', lookup q n = some q' → isDir q = true

namespace FileSystem

variable (fs : FileSystem)

/-- Resolving one component from a location. -/
def enter (q : List String) : Part → Option (List String)
  | .parentDir => if fs.isDir q then some q.dropLast else none
  | .normal name => fs.lookup q name

/-- Where the resolution of a path begins: the empty path names nothing. -/
def origin (p : Path) : Option (List String) :=
  match p.start, p.parts with
  | .root, _ => some []
  | .dot, _ => some fs.cwd
  | .bare, [] => none
  | .bare, _ :: _ => some fs.cwd

/-- The location of a path all of whose components exist. -/
def canonicalize (p : Path) : Option (List String) :=
  (fs.origin p).bind fun q => p.parts.foldlM fs.enter q

/-- The place of an absolute path, given by its parts from the last one. -/
def placeRev : List Part → List String
  | [] => []
  | c :: above => (fs.canonicalize ⟨.root, (c :: above).reverse⟩).getD (placeRev above ++ c.names)

/-- The place of an absolute path: where it leads if all of it exists, and otherwise under the place
of its parent. -/
def place (p : Path) : List String := placeRev fs p.parts.reverse

/-- At and below a location a name leads to the entry that is spelled like it: there is no symbolic
link, and no lookup folds case. -/
def LinkFree (q : List String) : Prop :=
  ∀ r n r', q <+: r → fs.lookup r n = some r' → r' = r ++ [n]

variable {fs}

theorem canonicalize_root : fs.canonicalize ⟨.root, []⟩ = some [] := rfl

variable (l : List Part)

theorem canonicalize_concat (c : Part) :
    fs.canonicalize ⟨.root, l ++ [c]⟩ = (fs.canonicalize ⟨.root, l⟩).bind (fs.enter · c) := by
  simp only [canonicalize, origin, Option.bind_some, foldlM_append]
  cases l.foldlM fs.enter ([] : List String) with
  | none => rfl
  | some q => simp

/-- **What the last component adds**: where it leads if it exists, and else its name. -/
theorem place_parts (c : Part) :
    fs.place ⟨.root, l ++ [c]⟩ =
      (fs.canonicalize ⟨.root, l ++ [c]⟩).getD (fs.place ⟨.root, l⟩ ++ c.names) := by
  simp [place, placeRev]

theorem place_of_canonicalize {l : List Part} {q : List String}
    (h : fs.canonicalize ⟨.root, l⟩ = some q) : fs.place ⟨.root, l⟩ = q := by
  induction l using reverseRecOn with
  | nil => exact Option.some.inj h
  | append_singleton l c _ => rw [place_parts, h, Option.getD_some]

theorem LinkFree.mono {q r : List String} (h : fs.LinkFree q) (hr : q <+: r) : fs.LinkFree r :=
  fun s n s' hs => h s n s' (hr.trans hs)

variable {p : Path}

theorem place_join (hp : p.start = .root) (h : fs.LinkFree (fs.place p)) (n : String) :
    fs.place (p.join n) = fs.place p ++ [n] := by
  obtain ⟨start, l⟩ := p
  cases hp
  rw [Path.join, place_parts, canonicalize_concat]
  cases hl : fs.canonicalize ⟨.root, l⟩ with
  | none => rfl
  | some q =>
    -- the directory exists: the entry is missing, or it is no link
    rw [place_of_canonicalize hl] at h ⊢
    rw [Option.bind_some, enter]
    cases hn : fs.lookup q n with
    | none => rfl
    | some r => exact h q n r prefix_rfl hn

/-- **Names below a location without links** are added to the place as they are. -/
theorem place_joinAll (hp : p.start = .root) (h : fs.LinkFree (fs.place p))
    (names : List String) : fs.place (p.joinAll names) = fs.place p ++ names := by
  induction names generalizing p with
  | nil => simp [Path.joinAll]
  | cons n names ih =>
    have hn := place_join hp h n
    have hstart : (p.join n).start = .root := hp
    have hfree : fs.LinkFree (fs.place (p.join n)) := by
      rw [hn]
      exact h.mono (prefix_append ..)
    rw [Path.joinAll_cons, ih hstart hfree, hn, append_assoc, singleton_append]

/-- The file system that has the directories of a list and nothing else. -/
def ofDirs (dirs : List (List String)) : FileSystem where
  isDir q := q ∈ [] :: dirs
  lookup q n := if q ∈ [] :: dirs ∧ q ++ [n] ∈ dirs then some (q ++ [n]) else none
  cwd := []
  isDir_root := by simp
  isDir_of_lookup := by
    intro q n q' h
    split_ifs at h with hq
    simpa using hq.1

theorem linkFree_ofDirs (dirs : List (List String)) (q : List String) :
    (ofDirs dirs).LinkFree q := by
  intro r n r' _ h
  simp only [ofDirs] at h
  split_ifs at h
  exact (Option.some.inj h).symm

end FileSystem

end Octos
