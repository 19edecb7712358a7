import Octos.Tools.ApplyPatch

/-!
# A patch is applied as a whole

A patch that is valid should be executed to its end, with the tree that its sections give one after
another. Planning simulates the patch in an overlay that is keyed by whole paths: it knows each file
that a section has left, but not that the directories above it now exist, nor that a path lies under
a file. So a valid patch fails on the disk exactly if one of its sections writes to a path that is a
directory, or that lies under a file, when it is executed.

## Main results

* `applyChange_of_planOp`, `applyChange_obstructed`: what applying a planned section does
* `allOrNothing_iff_clearPaths`: a valid patch is executed as a whole iff its paths are clear
-/

namespace Octos.Tools

open Option Overlay

variable {β : Type} (resolve : String → Except String Path) (read : β → Except String Text)

/-! ## The sections one after another -/

def execute (t : Tree β) : PatchOp → Option (Tree β)
  | .add path content => do
    let p ← (resolve path).toOption
    if (t.entry p).isSome then none else (writeWithParents t p content).toOption
  | .delete path => do
    let p ← (resolve path).toOption
    removeFile t p
  | .update path moveTo hunks => do
    let p ← (resolve path).toOption
    let file ← t.fileAt p
    let current ← (file.text read).toOption
    let updated ← (applyCodexHunks current hunks).toOption
    let dest ← (destination resolve p moveTo).toOption
    match dest with
    | none => (writeWithParents t p updated).toOption
    | some dest =>
      if (t.entry dest.1).isSome then none
      else do
        let t' ← (writeWithParents t dest.1 updated).toOption
        removeFile t' p

def executeAll (t : Tree β) : List PatchOp → Option (Tree β)
  | [] => some t
  | op :: ops => (execute resolve read t op).bind fun t' => executeAll t' ops

/-- A patch that is not valid changes no file, and one that is valid is executed to its end, with
the tree that its sections give one after another. -/
structure AllOrNothing (disk : Tree β) (ops : List PatchOp) : Prop where
  invalid : ∀ e, planSections resolve read disk ops = .error e →
    applyCodexPatch resolve read disk ops = (disk, .invalid e)
  valid : ∀ plan, planSections resolve read disk ops = .ok plan →
    ∃ t applied, applyCodexPatch resolve read disk ops = (t, .executed applied none) ∧
      applied.length = plan.length ∧ executeAll resolve read disk ops = some t

/-- The path at which a section makes a file: that of an added file, or where an update is moved. -/
def PatchOp.makes : PatchOp → Option Path
  | .add path _ => (resolve path).toOption
  | .delete _ => none
  | .update path moveTo _ => do
    let p ← (resolve path).toOption
    let dest ← (destination resolve p moveTo).toOption
    dest.map Prod.fst

/-- Where a section makes a file, there is no directory, and no file above. -/
def Unobstructed (t : Tree β) (op : PatchOp) : Prop := ∀ p, op.makes resolve = some p → t.Writable p

/-- Nothing is in the way of any section when it is its turn. -/
def ClearPaths (t : Tree β) : List PatchOp → Prop
  | [] => True
  | op :: ops =>
    Unobstructed resolve t op ∧ ∀ t', execute resolve read t op = some t' → ClearPaths t' ops

/-! ## The overlay and the disk -/

/-- The file at a path after what an overlay records. -/
def Overlay.fileAt (overlay : Overlay) (disk : Tree β) (p : Path) : Option (Content β) :=
  match overlay p with
  | some state => state.map .written
  | none => disk.fileAt p

/-- The current tree has the files that the overlay records over the disk at first. -/
def Simulates (disk : Tree β) (overlay : Overlay) (t : Tree β) : Prop :=
  ∀ p, t.fileAt p = overlay.fileAt disk p

section

variable {resolve read} {disk t t' : Tree β} {overlay overlay' : Overlay} {op : PatchOp}
  {change : PlannedChange} {p : Path} {content : Text} {c : Content β}

theorem Overlay.fileAt_insert (state : Option Text) (q : Path) :
    (overlay.insert p state).fileAt disk q =
      if q = p then state.map .written else overlay.fileAt disk q := by
  rw [fileAt, insert]
  split_ifs with h <;> rfl

theorem fileAt_of_free (h : overlayEntryExists disk overlay p = false) :
    overlay.fileAt disk p = none := by
  rw [overlayEntryExists] at h
  rw [fileAt]
  cases ho : overlay p with simp only [ho] at h ⊢
  | none =>
    rw [FileTree.fileAt]
    rw [isSome_eq_false_iff, isNone_iff_eq_none] at h
    rw [h]
  | some =>
    rw [isSome_eq_false_iff, isNone_iff_eq_none] at h
    rw [h]
    rfl

theorem fileAt_of_fileEntry (h : fileEntry disk overlay p = .ok c) :
    overlay.fileAt disk p = some c := by
  rw [fileEntry] at h
  rw [fileAt]
  cases ho : overlay p with
  | none =>
    simp only [ho] at h ⊢
    rw [FileTree.fileAt_eq_some]
    cases he : disk.entry p with
    | none =>
      simp only [he] at h
      cases h
    | some e =>
      cases e with simp only [he] at h
      | file =>
        cases h
        rfl
      | dir => cases h
  | some state =>
    cases state with simp only [ho] at h
    | none => cases h
    | some =>
      cases h
      rfl

theorem writeWithParents_of_writable (h : t.Writable p) :
    writeWithParents t p content = .ok (t.put p (.written content) h) :=
  dif_pos h

theorem writeWithParents_of_not_writable (h : ¬ t.Writable p) :
    ∃ e, writeWithParents t p content = .error e :=
  ⟨_, dif_neg h⟩

theorem removeFile_of_fileAt (h : t.fileAt p = some c) : removeFile t p = some (t.erase p c h) := by
  rw [removeFile]
  split
  · next c' h' =>
    rfl
  · next h' =>
    rw [h] at h'
    cases h'

section

variable (hsim : Simulates disk overlay t)
include hsim

theorem Simulates.put (h : t.Writable p) :
    Simulates disk (overlay.insert p (some content)) (t.put p (.written content) h) := by
  intro q
  rw [FileTree.fileAt_put, fileAt_insert, hsim q]
  rfl

theorem Simulates.erase (h : t.fileAt p = some c) :
    Simulates disk (overlay.insert p none) (t.erase p c h) := by
  intro q
  rw [FileTree.fileAt_erase, fileAt_insert, hsim q]
  rfl

theorem Simulates.entry_of_free (h : t.Writable p)
    (hfree : overlayEntryExists disk overlay p = false) : t.entry p = none :=
  t.entry_eq_none ((hsim p).trans (fileAt_of_free hfree)) h.2

end

/-! ## What a planned section is -/

variable {path : String}

theorem resolvePatchPath_eq_ok : resolvePatchPath resolve path = .ok p ↔ resolve path = .ok p :=
  mapError_eq_ok

theorem planOp_add
    (h : planOp resolve read disk overlay (.add path content) = .ok (change, overlay')) :
    ∃ p, resolve path = .ok p ∧ overlayEntryExists disk overlay p = false ∧
      change = .write p path content .add ∧ overlay' = overlay.insert p (some content) := by
  obtain ⟨p, hp, h⟩ := bind_eq_ok.mp h
  split_ifs at h with hfree
  · cases h
  · cases h
    exact ⟨p, resolvePatchPath_eq_ok.mp hp, by simpa using hfree, rfl, rfl⟩

theorem planOp_delete {path : String}
    (h : planOp resolve read disk overlay (.delete path) = .ok (change, overlay')) :
    ∃ p c, resolve path = .ok p ∧ fileEntry disk overlay p = .ok c ∧
      change = .remove p path ∧ overlay' = overlay.insert p none := by
  obtain ⟨p, hp, h⟩ := bind_eq_ok.mp h
  obtain ⟨c, hc, h⟩ := bind_eq_ok.mp h
  cases h
  exact ⟨p, c, resolvePatchPath_eq_ok.mp hp, hc, rfl, rfl⟩

variable {moveTo : Option String} {hunks : List UpdateHunk}

theorem planOp_update
    (h : planOp resolve read disk overlay (.update path moveTo hunks) = .ok (change, overlay')) :
    ∃ p c current updated dest, resolve path = .ok p ∧ fileEntry disk overlay p = .ok c ∧
      c.text read = .ok current ∧ applyCodexHunks current hunks = .ok updated ∧
      destination resolve p moveTo = .ok dest ∧
      ((dest = none ∧ change = .write p path updated .update ∧
          overlay' = overlay.insert p (some updated)) ∨
        ∃ d, dest = some d ∧ overlayEntryExists disk overlay d.1 = false ∧
          change = .move p path d.1 d.2 updated ∧
          overlay' = (overlay.insert p none).insert d.1 (some updated)) := by
  obtain ⟨p, hp, h⟩ := bind_eq_ok.mp h
  obtain ⟨c, hc, h⟩ := bind_eq_ok.mp h
  obtain ⟨current, hcurrent, h⟩ := bind_eq_ok.mp h
  obtain ⟨updated, hupdated, h⟩ := bind_eq_ok.mp h
  obtain ⟨dest, hdest, h⟩ := bind_eq_ok.mp h
  refine ⟨p, c, current, updated, dest, resolvePatchPath_eq_ok.mp hp, hc,
    mapError_eq_ok.mp hcurrent, mapError_eq_ok.mp hupdated, hdest, ?_⟩
  cases dest with
  | none =>
    cases h
    exact .inl ⟨rfl, rfl, rfl⟩
  | some d =>
    simp only at h
    split_ifs at h with hfree
    · cases h
    · cases h
      exact .inr ⟨d, rfl, by simpa using hfree, rfl, rfl⟩

theorem destination_ne {d : Path × String} (h : destination resolve p moveTo = .ok (some d)) :
    d.1 ≠ p := by
  cases moveTo with
  | none => cases h
  | some =>
    obtain ⟨q, _, h⟩ := bind_eq_ok.mp h
    split_ifs at h with hne
    · cases h
      exact hne
    · cases h

/-! ## One section -/

theorem makes_add (h : resolve path = .ok p) :
    (PatchOp.add path content).makes resolve = some p := by
  rw [PatchOp.makes, h]
  rfl

theorem makes_update {dest : Option (Path × String)}
    (hp : resolve path = .ok p) (hdest : destination resolve p moveTo = .ok dest) :
    (PatchOp.update path moveTo hunks).makes resolve = dest.map Prod.fst := by
  rw [PatchOp.makes, hp]
  exact congrArg (bind · _) (congrArg Except.toOption hdest)

/-- **A planned section does on the disk what the section says, if nothing is in its way**, and the
overlay still has the files of the disk. -/
theorem applyChange_of_planOp (hsim : Simulates disk overlay t)
    (hplan : planOp resolve read disk overlay op = .ok (change, overlay'))
    (hclear : Unobstructed resolve t op) :
    ∃ t' applied, applyChange t change = (t', .ok applied) ∧
      execute resolve read t op = some t' ∧ Simulates disk overlay' t' := by
  cases op with
  | add path content =>
    obtain ⟨p, hp, hfree, rfl, rfl⟩ := planOp_add hplan
    have hw := hclear p (makes_add hp)
    refine ⟨t.put p (.written content) hw, ⟨.add, true, path, none, [p]⟩, ?_, ?_, hsim.put hw⟩
    · rw [applyChange, writeWithParents_of_writable hw]
      rfl
    · simp only [execute, hp, Except.toOption, bind_eq_bind, bind_some,
        hsim.entry_of_free hw hfree, writeWithParents_of_writable hw]
      rfl
  | delete path =>
    obtain ⟨p, c, hp, hc, rfl, rfl⟩ := planOp_delete hplan
    have hfile : t.fileAt p = some c := (hsim p).trans (fileAt_of_fileEntry hc)
    refine ⟨t.erase p c hfile, ⟨.delete, false, path, none, [p]⟩, ?_, ?_, hsim.erase hfile⟩
    · rw [applyChange, removeFile_of_fileAt hfile]
    · simp [execute, hp, Except.toOption, removeFile_of_fileAt hfile]
  | update path =>
    obtain ⟨p, c, current, updated, dest, hp, hc, hcurrent, hupdated, hdest, hcase⟩ :=
      planOp_update hplan
    have hfile : t.fileAt p = some c := (hsim p).trans (fileAt_of_fileEntry hc)
    rcases hcase with ⟨rfl, rfl, rfl⟩ | ⟨d, rfl, hfree, rfl, rfl⟩
    · -- A file that is there can be written again.
      have hw := t.writable_of_fileAt hfile
      refine ⟨t.put p (.written updated) hw, ⟨.update, false, path, none, [p]⟩, ?_, ?_, hsim.put hw⟩
      · rw [applyChange, writeWithParents_of_writable hw]
        rfl
      · simp [execute, hp, Except.toOption, hfile, hcurrent, hupdated, hdest,
          writeWithParents_of_writable hw]
    · have hw := hclear d.1 (makes_update hp hdest)
      have hne := destination_ne hdest
      -- The destination is another path, so the source is still there after the write.
      have hsource : (t.put d.1 (.written updated) hw).fileAt p = some c := by
        rw [FileTree.fileAt_put, if_neg hne.symm, hfile]
      refine ⟨(t.put d.1 (.written updated) hw).erase p c hsource,
        ⟨.move, false, d.2, some path, [p, d.1]⟩, ?_, ?_, ?_⟩
      · rw [applyChange, writeWithParents_of_writable hw]
        simp [removeFile_of_fileAt hsource]
      · simp only [execute, hp, Except.toOption, bind_eq_bind, bind_some, hfile,
          hcurrent, hupdated, hdest, hsim.entry_of_free hw hfree, writeWithParents_of_writable hw]
        exact removeFile_of_fileAt hsource
      · intro q
        rw [FileTree.fileAt_erase, FileTree.fileAt_put, fileAt_insert, fileAt_insert, hsim q]
        by_cases hq : q = p
        · subst hq
          rw [if_pos rfl, if_neg hne.symm, if_pos rfl]
          rfl
        · rw [if_neg hq, if_neg hq]
          rfl

theorem applyChange_obstructed
    (hplan : planOp resolve read disk overlay op = .ok (change, overlay'))
    (hblocked : ¬ Unobstructed resolve t op) :
    ∃ failure, (applyChange t change).2 = .error failure := by
  simp only [Unobstructed, not_forall] at hblocked
  obtain ⟨q, hq, hw⟩ := hblocked
  cases op with
  | add path content =>
    obtain ⟨p, hp, _, rfl, rfl⟩ := planOp_add hplan
    obtain rfl : p = q := some.inj ((makes_add hp).symm.trans hq)
    obtain ⟨e, he⟩ := @writeWithParents_of_not_writable _ _ _ content hw
    exact ⟨_, by rw [applyChange, he]⟩
  | delete => cases hq
  | update =>
    obtain ⟨p, c, current, updated, dest, hp, hc, _, _, hdest, hcase⟩ := planOp_update hplan
    rw [makes_update hp hdest] at hq
    rcases hcase with ⟨rfl, rfl, rfl⟩ | ⟨d, rfl, _, rfl, rfl⟩
    · cases hq
    · obtain rfl : d.1 = q := some.inj hq
      obtain ⟨e, he⟩ := @writeWithParents_of_not_writable _ _ _ updated hw
      exact ⟨_, by rw [applyChange, he]⟩

/-! ## The whole patch -/

variable {ops : List PatchOp} {plan : List PlannedSection} {sectionNo : ℕ}

theorem planFrom_cons (h : planFrom resolve read disk overlay sectionNo (op :: ops) = .ok plan) :
    ∃ change overlay' rest, planOp resolve read disk overlay op = .ok (change, overlay') ∧
      planFrom resolve read disk overlay' (sectionNo + 1) ops = .ok rest ∧
      plan = ⟨sectionNo, op.label, change⟩ :: rest := by
  obtain ⟨planned, hplanned, h⟩ := bind_eq_ok.mp h
  obtain ⟨rest, hrest, h⟩ := bind_eq_ok.mp h
  cases h
  exact ⟨planned.1, planned.2, rest, mapError_eq_ok.mp hplanned, hrest, rfl⟩

section

variable (hsim : Simulates disk overlay t)
  (hplan : planFrom resolve read disk overlay sectionNo ops = .ok plan)
include hsim hplan

theorem applyPlanned_of_clearPaths (hclear : ClearPaths resolve read t ops) :
    ∃ t' applied, applyPlanned t plan = ⟨t', applied, none⟩ ∧ applied.length = plan.length ∧
      executeAll resolve read t ops = some t' := by
  induction ops generalizing overlay t sectionNo plan with
  | nil =>
    cases hplan
    exact ⟨t, [], rfl, rfl, rfl⟩
  | cons op ops ih =>
    obtain ⟨change, overlay', rest, hop, hrest, rfl⟩ := planFrom_cons hplan
    obtain ⟨t₁, report, happly, hexec, hsim₁⟩ := applyChange_of_planOp hsim hop hclear.1
    obtain ⟨t', applied, hrun, hlen, hall⟩ := ih hsim₁ hrest (hclear.2 t₁ hexec)
    refine ⟨t', report :: applied, ?_, congrArg (· + 1) hlen, ?_⟩
    · simp [applyPlanned, happly, hrun]
    · rw [executeAll, hexec]
      exact hall

theorem clearPaths_of_applyPlanned
    (hrun : (applyPlanned t plan).failure = none) : ClearPaths resolve read t ops := by
  induction ops generalizing overlay t sectionNo plan with
  | nil => trivial
  | cons op ops ih =>
    obtain ⟨change, overlay', rest, hop, hrest, rfl⟩ := planFrom_cons hplan
    by_cases hblocked : Unobstructed resolve t op
    · obtain ⟨t₁, report, happly, hexec, hsim₁⟩ := applyChange_of_planOp hsim hop hblocked
      simp only [applyPlanned, happly] at hrun
      refine ⟨hblocked, ?_⟩
      intro t' hexec'
      obtain rfl : t₁ = t' := some.inj (hexec.symm.trans hexec')
      exact ih hsim₁ hrest hrun
    · obtain ⟨failure, hfailure⟩ := @applyChange_obstructed _ _ _ _ t _ _ _ _ hop hblocked
      simp only [applyPlanned, hfailure] at hrun
      cases hrun

end

end

/-- **A patch is applied as a whole, or not at all, exactly if it is not valid or its paths are
clear.** -/
theorem allOrNothing_iff_clearPaths (disk : Tree β) (ops : List PatchOp) :
    AllOrNothing resolve read disk ops ↔
      ∀ plan, planSections resolve read disk ops = .ok plan → ClearPaths resolve read disk ops := by
  -- At first the overlay is empty.
  have hsim : Simulates disk (fun _ => none) disk := fun _ => rfl
  constructor
  · intro hall plan hplan
    obtain ⟨t, applied, hrun, _, _⟩ := hall.valid plan hplan
    simp only [applyCodexPatch, hplan] at hrun
    refine clearPaths_of_applyPlanned hsim hplan ?_
    injection hrun with _ houtcome
    injection houtcome
  · intro hclear
    constructor
    · intro e he
      rw [applyCodexPatch, he]
    · intro plan hplan
      obtain ⟨t, applied, hrun, hlen, hall⟩ :=
        applyPlanned_of_clearPaths hsim hplan (hclear plan hplan)
      refine ⟨t, applied, ?_, hlen, hall⟩
      simp [applyCodexPatch, hplan, hrun]

def emptyTree : Tree β where
  entry p := if p = [] then some .dir else none
  root := rfl
  parent := by
    intro p n h
    rw [if_neg (List.append_ne_nil_of_right_ne_nil p (List.cons_ne_nil n []))] at h
    exact absurd rfl h

/-- The paths of the patch below. -/
def nestedPaths (path : String) : Except String Path :=
  if path = "a" then .ok ["a"] else if path = "a/b" then .ok ["a", "b"] else .error "unknown path"

/-- A patch that adds a file and then one under it is valid, and fails after the first. -/
theorem fileUnderFile_not_allOrNothing :
    ¬ AllOrNothing nestedPaths (fun _ : Unit => .error "no file") emptyTree
      [.add "a" ['x'], .add "a/b" ['y']] := by
  intro hall
  obtain ⟨t, applied, hrun, _, _⟩ := hall.valid
    [⟨1, "Add File: a", .write ["a"] "a" ['x'] .add⟩,
      ⟨2, "Add File: a/b", .write ["a", "b"] "a/b" ['y'] .add⟩] rfl
  have hfailed : (applyCodexPatch nestedPaths (fun _ : Unit => .error "no file") emptyTree
      [.add "a" ['x'], .add "a/b" ['y']]).2 =
      .executed [⟨.add, true, "a", none, [["a"]]⟩]
        (some ⟨2, "Add File: a/b", ⟨.write .parents, []⟩⟩) := rfl
  rw [hrun] at hfailed
  injection hfailed with _ h
  cases h

end Octos.Tools
