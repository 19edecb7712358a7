import Mathlib.Data.List.Basic

/-!
# Directory trees

A tree of directories and files without links, as the entries at its paths. The invariant of a tree
is a field: its root is a directory, and so is the parent of every entry. A file is written together
with the directories above it, which is possible exactly if none of them is a file and no directory
is in its place.
-/

namespace Octos

variable {ν γ : Type}

/-! ## Paths above a path -/

/-- The paths above a path, the root first. -/
def ancestors : List ν → List (List ν)
  | [] => []
  | n :: p => [] :: (ancestors p).map (n :: ·)

variable {p q : List ν}

theorem mem_ancestors : q ∈ ancestors p ↔ ∃ n r, p = q ++ n :: r := by
  induction p generalizing q with
  | nil => simp [ancestors]
  | cons m p ih =>
    rw [ancestors, List.mem_cons, List.mem_map]
    constructor
    · rintro (rfl | ⟨q', hq', rfl⟩)
      · exact ⟨m, p, rfl⟩
      · obtain ⟨n, r, rfl⟩ := ih.mp hq'
        exact ⟨n, r, rfl⟩
    · rintro ⟨n, r, h⟩
      cases q with
      | nil => exact .inl rfl
      | cons m' q =>
        obtain ⟨rfl, rfl⟩ := h
        exact .inr ⟨q, ih.mpr ⟨n, r, rfl⟩, rfl⟩

theorem not_mem_ancestors_self (p : List ν) : p ∉ ancestors p := by
  intro h
  obtain ⟨n, r, hp⟩ := mem_ancestors.mp h
  have := congrArg List.length hp
  rw [List.length_append, List.length_cons] at this
  omega

theorem mem_ancestors_of_concat {n : ν} (h : q ++ [n] ∈ ancestors p) : q ∈ ancestors p := by
  obtain ⟨m, r, rfl⟩ := mem_ancestors.mp h
  exact mem_ancestors.mpr ⟨n, m :: r, by simp⟩

/-! ## Trees -/

/-- What is at a path. -/
inductive Entry (γ : Type)
  | file (c : γ)
  | dir

structure FileTree (ν γ : Type) where
  entry : List ν → Option (Entry γ)
  root : entry [] = some .dir
  parent : ∀ p n, entry (p ++ [n]) ≠ none → entry p = some .dir

namespace FileTree

variable (t : FileTree ν γ) {p q : List ν} {c : γ}

def fileAt (p : List ν) : Option γ :=
  match t.entry p with
  | some (.file c) => some c
  | _ => none

theorem fileAt_eq_some : t.fileAt p = some c ↔ t.entry p = some (.file c) := by
  rw [fileAt]
  rcases t.entry p with _ | (_ | _) <;> simp

def isDir (p : List ν) : Bool :=
  match t.entry p with
  | some .dir => true
  | _ => false

theorem isDir_iff : t.isDir p = true ↔ t.entry p = some .dir := by
  rw [isDir]
  rcases t.entry p with _ | (_ | _) <;> simp

theorem entry_eq_none (hfile : t.fileAt p = none) (hdir : t.isDir p = false) :
    t.entry p = none := by
  cases he : t.entry p with
  | none => rfl
  | some e =>
    cases e with
    | file c =>
      rw [t.fileAt_eq_some.mpr he] at hfile
      cases hfile
    | dir =>
      rw [t.isDir_iff.mpr he] at hdir
      cases hdir

theorem entry_of_mem_ancestors (hq : q ∈ ancestors p) (hp : t.entry p ≠ none) :
    t.entry q = some .dir := by
  obtain ⟨n, r, rfl⟩ := mem_ancestors.mp hq
  induction r generalizing q n with
  | nil => exact t.parent q n hp
  | cons m r ih =>
    refine t.parent q n ?_
    have hassoc : q ++ n :: m :: r = (q ++ [n]) ++ m :: r := by simp
    rw [hassoc] at hp hq
    rw [ih m (mem_ancestors.mpr ⟨m, r, rfl⟩) hp]
    exact Option.some_ne_none _

/-- Nothing above a path is a file. -/
def openAbove (p : List ν) : Bool := (ancestors p).all fun q => (t.fileAt q).isNone

/-- A file can be written at a path with the directories above it. -/
def Writable (p : List ν) : Prop := t.openAbove p = true ∧ t.isDir p = false

theorem openAbove_iff : t.openAbove p = true ↔ ∀ q ∈ ancestors p, t.fileAt q = none := by
  simp [openAbove]

theorem writable_of_fileAt (h : t.fileAt p = some c) : t.Writable p := by
  have he := t.fileAt_eq_some.mp h
  refine ⟨t.openAbove_iff.mpr ?_, ?_⟩
  · intro q hq
    have hdir := t.entry_of_mem_ancestors hq (by rw [he]; exact Option.some_ne_none _)
    rw [fileAt, hdir]
  · rw [isDir, he]

/-! ## Writing and removing -/

section

variable [DecidableEq ν]

/-- A file is written, with the directories above it. -/
def put (p : List ν) (c : γ) (h : t.Writable p) : FileTree ν γ where
  entry q := if q = p then some (.file c) else if q ∈ ancestors p then some .dir else t.entry q
  root := by
    have hp : [] ≠ p := by
      rintro rfl
      have hdir := h.2
      rw [t.isDir_iff.mpr t.root] at hdir
      cases hdir
    rw [if_neg hp]
    split_ifs
    · rfl
    · exact t.root
  parent := by
    intro q n hq
    -- A directory above the path is one now, and no directory was at the path.
    by_cases hanc : q ∈ ancestors p
    · have hne : q ≠ p := by
        rintro rfl
        exact not_mem_ancestors_self q hanc
      rw [if_neg hne, if_pos hanc]
    · have hne : q ++ [n] ≠ p := by
        rintro rfl
        exact hanc (mem_ancestors.mpr ⟨n, [], rfl⟩)
      rw [if_neg hne, if_neg fun hmem => hanc (mem_ancestors_of_concat hmem)] at hq
      have hdir := t.parent q n hq
      have hqp : q ≠ p := by
        rintro rfl
        have hnot := h.2
        rw [t.isDir_iff.mpr hdir] at hnot
        cases hnot
      rw [if_neg hqp, if_neg hanc]
      exact hdir

def erase (p : List ν) (c : γ) (h : t.fileAt p = some c) : FileTree ν γ where
  entry q := if q = p then none else t.entry q
  root := by
    have hp : [] ≠ p := by
      rintro rfl
      rw [t.fileAt_eq_some, t.root] at h
      cases h
    rw [if_neg hp]
    exact t.root
  parent := by
    intro q n hq
    have hne : q ++ [n] ≠ p := by
      intro he
      rw [if_pos he] at hq
      exact hq rfl
    rw [if_neg hne] at hq
    have hdir := t.parent q n hq
    have hqp : q ≠ p := by
      rintro rfl
      rw [t.fileAt_eq_some, hdir] at h
      cases h
    rw [if_neg hqp]
    exact hdir

/-- The files after one is written: the directories above it are in the place of no file. -/
theorem fileAt_put (h : t.Writable p) :
    (t.put p c h).fileAt q = if q = p then some c else t.fileAt q := by
  rw [fileAt]
  simp only [put]
  split_ifs with hqp hanc
  · rfl
  · exact (t.openAbove_iff.mp h.1 q hanc).symm
  · rfl

theorem fileAt_erase (h : t.fileAt p = some c) :
    (t.erase p c h).fileAt q = if q = p then none else t.fileAt q := by
  rw [fileAt]
  simp only [erase]
  split_ifs with hqp <;> rfl

end

end FileTree

end Octos
