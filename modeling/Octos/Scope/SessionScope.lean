import Octos.Base.Checked
import Octos.Base.Paths

/-!
# The file scope of a session

The contract under which a session touches the file system: its workspace, the directories it may
read or write besides, and the two classifiers that say to which of them a path belongs. The
constructors check the directories they are given by their text alone. `classifyLexicalPath` also
compares texts; `classifyCanonicalPath` first resolves the path and every directory of the scope on
the file system.
-/

namespace Octos.Scope

open List Except Octos.Path

/-! ## Scopes -/

def multiTenantWorkspaceDirName : String := "workspace"

def multiTenantUsersDirName : String := "users"

def defaultMultiTenantSharedZoneNames : List String := ["research", "skills"]

inductive SessionScopeError
  | rootNotAbsolute (path : Path)
  | workspaceEscapesRoot (root workspace : Path)
  | emptyTenantId
  | unsafeSessionId (id : String)
  | grantedDirNotAbsolute (index : ℕ) (dir : Path)
  | sharedZoneNotStrictSubdir (root zone : Path)
  | grantNotAllowedInMultiTenant
  | sharedZoneOverlapsUsersSubtree (usersSubtree zone : Path)
  | skillReadZoneNotAbsolute (index : ℕ) (dir : Path)
  | readOnlyViewInvalid (path : Path)

/-- To which directory of a scope a path belongs. -/
inductive PathClassification
  | inWorkspace
  | inSharedZone (zone : Path)
  | inGrantedDir (grantedDir : Path)
  | inSkillDir (skillDir : Path)
  | inReadOnlyView (root : Path)
  | outOfScope
deriving DecidableEq

/-- The part of a scope that depends on how the process serves its users. -/
inductive ScopeMode
  | multiTenant (tenantId sessionId : String) (sharedZones : List Path)
  | solo (grantedDirs : List Path)

/-- A folder that may be read, without the folders in `excluded`. -/
structure ReadOnlyView where
  root : Path
  excluded : List Path

structure SessionScope where
  root : Path
  workspace : Path
  mode : ScopeMode
  skillReadZones : List Path
  readOnlyView : Option ReadOnlyView

/-! ## Resolving directories -/

/-- The walk over the ancestors of a path, given by its parts from the last one. The names of what
is left behind are collected in `suffix`; a `..` has no name and is dropped. -/
def ancestorWalk (fs : FileSystem) (start : PathStart) : List Part → List String → Option Path
  | [], _ => none
  | c :: existing, suffix =>
    match fs.canonicalize ⟨start, existing.reverse⟩ with
    | some canon => some (.absolute (canon ++ (c.names ++ suffix)))
    | none => ancestorWalk fs start existing (c.names ++ suffix)

/-- Canonicalising a path whose last components may not exist. -/
def canonicalizeLossy (fs : FileSystem) (path : Path) : Path :=
  match fs.canonicalize path with
  | some canon => .absolute canon
  | none => (ancestorWalk fs path.start path.parts.reverse []).getD path

/-- Canonicalising a directory of a scope: the same walk. -/
def canonicalRootLossy (fs : FileSystem) (root : Path) : Path := canonicalizeLossy fs root

/-- A path without its leading `.`; a path with a `..` is refused. -/
def lexicalNormalise (path : Path) : Option Path :=
  if .parentDir ∈ path.parts then none
  else some { path with start := if path.start = .dot then .bare else path.start }

theorem lexicalNormalise_eq_some {path normalised : Path} (hp : path.start = .root)
    (h : lexicalNormalise path = some normalised) : normalised = path := by
  rw [lexicalNormalise] at h
  split_ifs at h with hdots hdot
  · rw [hp] at hdot
    cases hdot
  · exact (Option.some.inj h).symm

/-! ## Building scopes -/

/-- Session ids that may stand in the layout of the directories: one component, never `.` or
`..`. -/
def isSafeSessionId (sessionId : String) : Bool :=
  if sessionId.isEmpty then false
  else if sessionId == "." || sessionId == ".." then false
  else sessionId.toList.all fun c => c.isAlphanum || c == '-' || c == '_' || c == '#'

/-- The checks on the shared zones of a profile, in the order they are made. -/
def checkSharedZones (profileDataDir : Path) : List Path → Except SessionScopeError Unit
  | [] => .ok ()
  | zone :: zones =>
    let usersSubtree := profileDataDir.join multiTenantUsersDirName
    if zone = profileDataDir ∨ zone.startsWith profileDataDir = false then
      .error (.sharedZoneNotStrictSubdir profileDataDir zone)
    else if zone = usersSubtree ∨ zone.startsWith usersSubtree = true then
      .error (.sharedZoneOverlapsUsersSubtree usersSubtree zone)
    else checkSharedZones profileDataDir zones

namespace SessionScope

variable (scope : SessionScope)

def multiTenant (profileDataDir : Path) (tenantId sessionId : String) (sharedZones : List Path) :
    Except SessionScopeError SessionScope :=
  if profileDataDir.isAbsolute = false then .error (.rootNotAbsolute profileDataDir)
  else if tenantId.isEmpty then .error .emptyTenantId
  else if isSafeSessionId sessionId = false then .error (.unsafeSessionId sessionId)
  else do
    checkSharedZones profileDataDir sharedZones
    return {
      workspace := ((profileDataDir.join multiTenantUsersDirName).join sessionId).join
        multiTenantWorkspaceDirName
      root := profileDataDir
      mode := .multiTenant tenantId sessionId sharedZones
      skillReadZones := []
      readOnlyView := none }

def multiTenantWithDefaultZones (profileDataDir : Path) (tenantId sessionId : String) :
    Except SessionScopeError SessionScope :=
  multiTenant profileDataDir tenantId sessionId
    (defaultMultiTenantSharedZoneNames.map profileDataDir.join)

/-- A multi-tenant scope at an explicit workspace. Unlike `multiTenant` it refuses a root and a
workspace with a `..`, and like it it does not look for one in the zones. -/
def multiTenantAtWorkspace (profileDataDir workspace : Path) (tenantId sessionId : String)
    (sharedZones : List Path) : Except SessionScopeError SessionScope :=
  if profileDataDir.isAbsolute = false then .error (.rootNotAbsolute profileDataDir)
  else if workspace.isAbsolute = false then .error (.rootNotAbsolute workspace)
  else if .parentDir ∈ workspace.parts ∨ .parentDir ∈ profileDataDir.parts then
    .error (.workspaceEscapesRoot profileDataDir workspace)
  else if workspace.startsWith profileDataDir = false then
    .error (.workspaceEscapesRoot profileDataDir workspace)
  else if tenantId.isEmpty then .error .emptyTenantId
  else if isSafeSessionId sessionId = false then .error (.unsafeSessionId sessionId)
  else do
    checkSharedZones profileDataDir sharedZones
    return {
      workspace := workspace
      root := profileDataDir
      mode := .multiTenant tenantId sessionId sharedZones
      skillReadZones := []
      readOnlyView := none }

def solo (cwd : Path) (grantedDirs : List Path) : Except SessionScopeError SessionScope :=
  if cwd.isAbsolute = false then .error (.rootNotAbsolute cwd)
  else match grantedDirs.zipIdx.find? (fun dir => dir.1.isAbsolute = false) with
  | some (dir, idx) => .error (.grantedDirNotAbsolute idx dir)
  | none => .ok ⟨cwd, cwd, .solo grantedDirs, [], none⟩

def withWorkspace (fs : FileSystem) (scope : SessionScope) (workspace : Path) :
    Except SessionScopeError SessionScope :=
  if workspace.isAbsolute = false then .error (.rootNotAbsolute workspace)
  else if .parentDir ∈ workspace.parts then .error (.workspaceEscapesRoot scope.root workspace)
  else if (canonicalizeLossy fs workspace).startsWith (canonicalizeLossy fs scope.root) = false then
    .error (.workspaceEscapesRoot scope.root workspace)
  else .ok { scope with workspace := workspace }

def withSkillReadZones (dirs : List Path) : Except SessionScopeError SessionScope :=
  match dirs.zipIdx.find? (fun dir => dir.1.isAbsolute = false) with
  | some (dir, idx) => .error (.skillReadZoneNotAbsolute idx dir)
  | none => .ok { scope with skillReadZones := dirs }

def withReadOnlyView (root : Path) (excluded : List Path) : Except SessionScopeError SessionScope :=
  if root.isAbsolute = false ∨ .parentDir ∈ root.parts then .error (.readOnlyViewInvalid root)
  else match excluded.find? (fun path => path.isAbsolute = false ∨ .parentDir ∈ path.parts ∨
      path = root ∨ path.startsWith root = false) with
  | some path => .error (.readOnlyViewInvalid path)
  | none => .ok { scope with readOnlyView := some ⟨root, excluded⟩ }

def withGrantedDir (dir : Path) : Except SessionScopeError SessionScope :=
  if dir.isAbsolute = false then .error (.grantedDirNotAbsolute 0 dir)
  else match scope.mode with
  | .solo grantedDirs =>
    .ok { scope with
      mode := .solo (if dir ∈ grantedDirs then grantedDirs else grantedDirs ++ [dir]) }
  | .multiTenant .. => .error .grantNotAllowedInMultiTenant

def grantedDirs (scope : SessionScope) : List Path :=
  match scope.mode with
  | .solo grantedDirs => grantedDirs
  | .multiTenant .. => []

def sharedZones (scope : SessionScope) : List Path :=
  match scope.mode with
  | .multiTenant _ _ sharedZones => sharedZones
  | .solo _ => []

end SessionScope

/-! ## Classifying paths -/

/-- The path is in the view and in no folder that it excludes. -/
def ReadOnlyView.contains (view : ReadOnlyView) (inside : Path → Bool) : Bool :=
  inside view.root && !view.excluded.any inside

namespace SessionScope

variable (scope : SessionScope)

/-- The classification of the path for which `inside` says in which directories it is. -/
def classify (inside : Path → Bool) : PathClassification :=
  if inside scope.workspace then .inWorkspace
  else match scope.grantedDirs.find? inside with
  | some granted => .inGrantedDir granted
  | none => match scope.skillReadZones.find? inside with
    | some skillDir => .inSkillDir skillDir
    | none => match scope.readOnlyView.filter (·.contains inside) with
      | some view => .inReadOnlyView view.root
      | none => match scope.sharedZones.find? inside with
        | some zone => .inSharedZone zone
        | none => .outOfScope

def classifyLexicalPath (path : Path) : PathClassification :=
  match lexicalNormalise path with
  | some normalised => scope.classify normalised.startsWith
  | none => .outOfScope

def classifyCanonicalPath (fs : FileSystem) (scope : SessionScope) (path : Path) :
    PathClassification :=
  let canon := canonicalizeLossy fs path
  scope.classify fun dir => canon.startsWith (canonicalRootLossy fs dir)

variable {scope : SessionScope}

/-- **Out of scope** is exactly what no directory of the scope has. -/
theorem classify_eq_outOfScope_iff {inside : Path → Bool} :
    scope.classify inside = .outOfScope ↔
      inside scope.workspace = false ∧ (∀ dir ∈ scope.grantedDirs, inside dir = false) ∧
      (∀ dir ∈ scope.skillReadZones, inside dir = false) ∧
      (∀ view ∈ scope.readOnlyView, view.contains inside = false) ∧
      ∀ zone ∈ scope.sharedZones, inside zone = false := by
  have hnone : ∀ l : List Path, l.find? inside = none ↔ ∀ dir ∈ l, inside dir = false := by
    intro l
    rw [find?_eq_none]
    simp
  have hview : scope.readOnlyView.filter (·.contains inside) = none ↔
      ∀ view ∈ scope.readOnlyView, view.contains inside = false := by
    simp
  rw [classify, ← hnone, ← hnone, ← hnone, ← hview]
  cases inside scope.workspace with
  | true => simp
  | false =>
    cases scope.grantedDirs.find? inside <;> cases scope.skillReadZones.find? inside <;>
      cases scope.readOnlyView.filter (·.contains inside) <;>
      cases scope.sharedZones.find? inside <;> simp

/-- The directories against which a scope compares a path. -/
def dirs (scope : SessionScope) : List Path :=
  scope.workspace :: (scope.grantedDirs ++ scope.skillReadZones ++
    (scope.readOnlyView.toList.flatMap fun view => view.root :: view.excluded) ++ scope.sharedZones)

theorem forall_dirs {P : Path → Prop} :
    (∀ dir ∈ scope.dirs, P dir) ↔
      P scope.workspace ∧ (∀ dir ∈ scope.grantedDirs, P dir) ∧
      (∀ dir ∈ scope.skillReadZones, P dir) ∧
      (∀ view ∈ scope.readOnlyView, P view.root ∧ ∀ dir ∈ view.excluded, P dir) ∧
      ∀ zone ∈ scope.sharedZones, P zone := by
  simp only [dirs, forall_mem_cons, forall_mem_append, forall_mem_flatMap,
    Option.mem_toList, Option.mem_def, and_assoc]

theorem classify_congr {f g : Path → Bool} (h : ∀ dir ∈ scope.dirs, f dir = g dir) :
    scope.classify f = scope.classify g := by
  obtain ⟨hws, hgranted, hskill, hview, hshared⟩ := forall_dirs.mp h
  have hfind : ∀ l : List Path, (∀ dir ∈ l, f dir = g dir) → l.find? f = l.find? g := by
    intro l hl
    induction l with
    | nil => rfl
    | cons dir l ih =>
      rw [forall_mem_cons] at hl
      rw [find?_cons, find?_cons, hl.1, ih hl.2]
  have hcontains : ∀ view ∈ scope.readOnlyView, view.contains f = view.contains g := by
    intro view hv
    obtain ⟨hroot, hexcluded⟩ := hview view hv
    have hany : view.excluded.any f = view.excluded.any g := by
      rw [Bool.eq_iff_iff, any_eq_true, any_eq_true]
      exact exists_congr fun dir => and_congr_right fun hdir => by rw [hexcluded dir hdir]
    rw [ReadOnlyView.contains, ReadOnlyView.contains, hroot, hany]
  have hfilter : scope.readOnlyView.filter (·.contains f) =
      scope.readOnlyView.filter (·.contains g) := by
    cases hv : scope.readOnlyView with
    | none => rfl
    | some view => simp only [Option.filter_some, hcontains view hv]
  rw [classify, classify, hws, hfind _ hgranted, hfind _ hskill, hfilter, hfind _ hshared]

end SessionScope

/-! ## The ancestor walk ends at the place of a path -/

variable {fs : FileSystem}

theorem ancestorWalk_eq (l : List Part) (suffix : List String)
    (h : fs.canonicalize ⟨.root, l.reverse⟩ = none) :
    ancestorWalk fs .root l suffix = some (.absolute (fs.place ⟨.root, l.reverse⟩ ++ suffix)) := by
  induction l generalizing suffix with
  | nil => simp [FileSystem.canonicalize_root] at h
  | cons c l ih =>
    rw [reverse_cons] at h ⊢
    rw [ancestorWalk, FileSystem.place_parts, h, Option.getD_none, append_assoc]
    cases hl : fs.canonicalize ⟨.root, l.reverse⟩ with
    | none => exact ih _ hl
    | some q => rw [FileSystem.place_of_canonicalize hl]

/-- **The ancestor walk** from an absolute path ends at its place. -/
theorem canonicalizeLossy_eq_place {path : Path} (h : path.start = .root) :
    canonicalizeLossy fs path = .absolute (fs.place path) := by
  obtain ⟨start, l⟩ := path
  cases h
  rw [canonicalizeLossy]
  cases hl : fs.canonicalize ⟨.root, l⟩ with
  | some q => rw [FileSystem.place_of_canonicalize hl]
  | none =>
    have hl' : fs.canonicalize ⟨.root, l.reverse.reverse⟩ = none := by rwa [reverse_reverse]
    have hw := ancestorWalk_eq l.reverse [] hl'
    rw [reverse_reverse, append_nil] at hw
    simp [hw]

/-! ## Every scope that can be built -/

namespace SessionScope

/-- The scopes that the constructors and builders give. -/
inductive Built (fs : FileSystem) : SessionScope → Prop
  | multiTenant {profileDataDir tenantId sessionId sharedZones scope}
      (h : multiTenant profileDataDir tenantId sessionId sharedZones = .ok scope) : Built fs scope
  | atWorkspace {profileDataDir workspace tenantId sessionId sharedZones scope}
      (h : multiTenantAtWorkspace profileDataDir workspace tenantId sessionId sharedZones =
        .ok scope) : Built fs scope
  | solo {cwd grantedDirs scope} (h : solo cwd grantedDirs = .ok scope) : Built fs scope
  | withWorkspace {scope workspace scope'} (hb : Built fs scope)
      (h : scope.withWorkspace fs workspace = .ok scope') : Built fs scope'
  | withSkillReadZones {scope dirs scope'} (hb : Built fs scope)
      (h : scope.withSkillReadZones dirs = .ok scope') : Built fs scope'
  | withReadOnlyView {scope root excluded scope'} (hb : Built fs scope)
      (h : scope.withReadOnlyView root excluded = .ok scope') : Built fs scope'
  | withGrantedDir {scope dir scope'} (hb : Built fs scope)
      (h : scope.withGrantedDir dir = .ok scope') : Built fs scope'

/-- The scope of an accepted session of a profile. -/
def ofProfile (profileDataDir workspace : Path) (tenantId sessionId : String)
    (sharedZones : List Path) : SessionScope where
  workspace := workspace
  root := profileDataDir
  mode := .multiTenant tenantId sessionId sharedZones
  skillReadZones := []
  readOnlyView := none

/-- Zones a profile accepts: strictly below its root, and not in the subtree of its users. -/
def ZoneOk (profileDataDir zone : Path) : Prop :=
  zone ≠ profileDataDir ∧ zone.startsWith profileDataDir = true ∧
    zone.startsWith (profileDataDir.join multiTenantUsersDirName) = false

variable {zones : List Path} {root workspace : Path}

theorem checkSharedZones_eq_ok {u : Unit} (h : checkSharedZones root zones = .ok u) :
    ∀ zone ∈ zones, ZoneOk root zone := by
  induction zones with
  | nil => simp
  | cons zone zones ih =>
    rw [checkSharedZones] at h
    split at h
    · exact absurd h (by simp)
    · split at h
      · exact absurd h (by simp)
      · rename_i hroot husers
        rw [not_or, Bool.not_eq_false] at hroot
        rw [not_or, Bool.not_eq_true] at husers
        exact forall_mem_cons.mpr ⟨⟨hroot.1, hroot.2, husers.2⟩, ih h⟩

/-- The names that lead from the root of a profile to the workspace of a session. -/
def workspaceNames (sessionId : String) : List String :=
  [multiTenantUsersDirName, sessionId, multiTenantWorkspaceDirName]

variable {scope : SessionScope} {tenantId sessionId : String}

theorem multiTenant_eq_ok (h : multiTenant root tenantId sessionId zones = .ok scope) :
    root.start = .root ∧ (∀ zone ∈ zones, ZoneOk root zone) ∧
      scope = ofProfile root (root.joinAll (workspaceNames sessionId)) tenantId sessionId
        zones := by
  rw [multiTenant] at h
  split_ifs at h with habs
  rw [isAbsolute, Bool.not_eq_false, beq_iff_eq] at habs
  obtain ⟨⟨⟩, hz, h⟩ := bind_eq_ok.mp h
  refine ⟨habs, checkSharedZones_eq_ok hz, (ok.inj h).symm.trans ?_⟩
  simp [ofProfile, workspaceNames, join, joinAll]

theorem multiTenantAtWorkspace_eq_ok
    (h : multiTenantAtWorkspace root workspace tenantId sessionId zones = .ok scope) :
    root.start = .root ∧ workspace.start = .root ∧ (∀ zone ∈ zones, ZoneOk root zone) ∧
      scope = ofProfile root workspace tenantId sessionId zones := by
  rw [multiTenantAtWorkspace] at h
  split_ifs at h with habs hws
  rw [isAbsolute, Bool.not_eq_false, beq_iff_eq] at habs hws
  obtain ⟨⟨⟩, hz, h⟩ := bind_eq_ok.mp h
  exact ⟨habs, hws, checkSharedZones_eq_ok hz, (ok.inj h).symm⟩

theorem ZoneOk.absolute {zone : Path} (h : ZoneOk root zone) (hroot : root.start = .root) :
    zone.start = .root :=
  start_of_startsWith h.2.1 hroot

theorem absolute_ofProfile (hroot : root.start = .root) (hws : workspace.start = .root)
    (hzones : ∀ zone ∈ zones, ZoneOk root zone) :
    ∀ dir ∈ (ofProfile root workspace tenantId sessionId zones).dirs, dir.start = .root :=
  forall_dirs.mpr ⟨hws, by simp [ofProfile, grantedDirs], by simp [ofProfile], by simp [ofProfile],
    fun zone hzone => (hzones zone hzone).absolute hroot⟩

theorem absolute_of_find? {l : List Path}
    (h : l.zipIdx.find? (fun dir => dir.1.isAbsolute = false) = none) :
    ∀ dir ∈ l, dir.start = .root := by
  intro dir hdir
  rw [← zipIdx_map_fst 0 l] at hdir
  obtain ⟨⟨dir, i⟩, hi, rfl⟩ := mem_map.mp hdir
  have := find?_eq_none.mp h _ hi
  simpa [isAbsolute] using this

theorem Built.absolute {fs : FileSystem} (h : Built fs scope) :
    ∀ dir ∈ scope.dirs, dir.start = .root := by
  -- Each builder checks what it adds, and keeps the other directories.
  induction h with
  | multiTenant h =>
    obtain ⟨hroot, hzones, rfl⟩ := multiTenant_eq_ok h
    exact absolute_ofProfile hroot hroot hzones
  | atWorkspace h =>
    obtain ⟨hroot, hws, hzones, rfl⟩ := multiTenantAtWorkspace_eq_ok h
    exact absolute_ofProfile hroot hws hzones
  | solo h =>
    rw [SessionScope.solo] at h
    split_ifs at h with habs
    split at h
    · exact absurd h (by simp)
    · rename_i hnone
      obtain rfl := ok.inj h
      rw [isAbsolute, Bool.not_eq_false, beq_iff_eq] at habs
      exact forall_dirs.mpr ⟨habs, absolute_of_find? hnone, by simp, by simp, by simp [sharedZones]⟩
  | withWorkspace hb h ih =>
    rw [SessionScope.withWorkspace] at h
    split_ifs at h with habs
    obtain rfl := ok.inj h
    rw [isAbsolute, Bool.not_eq_false, beq_iff_eq] at habs
    exact forall_dirs.mpr ⟨habs, (forall_dirs.mp ih).2⟩
  | withSkillReadZones hb h ih =>
    obtain ⟨hws, hgranted, -, hview, hshared⟩ := forall_dirs.mp ih
    rw [SessionScope.withSkillReadZones] at h
    split at h
    · exact absurd h (by simp)
    · rename_i hnone
      obtain rfl := ok.inj h
      exact forall_dirs.mpr ⟨hws, hgranted, absolute_of_find? hnone, hview, hshared⟩
  | withReadOnlyView hb h ih =>
    obtain ⟨hws, hgranted, hskill, -, hshared⟩ := forall_dirs.mp ih
    rw [SessionScope.withReadOnlyView] at h
    split_ifs at h with habs
    split at h
    · exact absurd h (by simp)
    · rename_i hnone
      obtain rfl := ok.inj h
      refine forall_dirs.mpr ⟨hws, hgranted, hskill, ?_, hshared⟩
      rintro view ⟨rfl⟩
      rw [not_or, isAbsolute, Bool.not_eq_false, beq_iff_eq] at habs
      refine ⟨habs.1, fun dir hdir => ?_⟩
      have := find?_eq_none.mp hnone dir hdir
      rw [decide_eq_true_eq, not_or, isAbsolute, Bool.not_eq_false, beq_iff_eq] at this
      exact this.1
  | withGrantedDir hb h ih =>
    obtain ⟨hws, hgranted, hskill, hview, hshared⟩ := forall_dirs.mp ih
    rw [SessionScope.withGrantedDir] at h
    split_ifs at h with habs
    split at h
    · rename_i granted hmode
      obtain rfl := ok.inj h
      rw [isAbsolute, Bool.not_eq_false, beq_iff_eq] at habs
      refine forall_dirs.mpr ⟨hws, ?_, hskill, hview, by simp [sharedZones]⟩
      have hold : ∀ dir ∈ granted, dir.start = .root := by
        simpa only [grantedDirs, hmode] using hgranted
      simp only [grantedDirs]
      split_ifs
      · exact hold
      · simpa [or_imp, forall_and, habs] using hold
    · exact absurd h (by simp)

/-- **Canonical classification compares places**: it says of an absolute path in which directories
of the scope its place lies. -/
theorem Built.classifyCanonicalPath_eq {fs : FileSystem} (h : Built fs scope) {path : Path}
    (hp : path.start = .root) :
    scope.classifyCanonicalPath fs path =
      scope.classify fun dir => (fs.place dir).isPrefixOf (fs.place path) := by
  rw [classifyCanonicalPath]
  apply classify_congr
  intro dir hdir
  rw [canonicalRootLossy, canonicalizeLossy_eq_place hp,
    canonicalizeLossy_eq_place (h.absolute dir hdir),
    Bool.eq_iff_iff, startsWith_absolute, List.isPrefixOf_iff_prefix]

end SessionScope

end Octos.Scope
