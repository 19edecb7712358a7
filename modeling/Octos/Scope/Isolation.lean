import Octos.Scope.SessionScope

/-!
# Isolation of the sessions of a profile

Two sessions of one profile have their workspaces side by side under its root. No file of one
workspace may be in the scope of the other session. The texts of the zones are checked so that none
of them is the root or lies in the subtree of the users, and that is enough for the lexical
classifier. The canonical classifier resolves the zones, and a zone spelled with a `..` can resolve
to a directory above a workspace. The sessions are isolated exactly if no zone is placed so.

## Main results

* `isolated_iff_apart`: when two sessions of a profile without links are isolated
* `isolated_of_plain_zones`: zones that are spelled without a `..`
-/

namespace Octos.Scope

open SessionScope List

/-- Every path inside the workspace of `other` is out of scope for both classifiers of `scope`. -/
def Isolated (fs : FileSystem) (scope other : SessionScope) : Prop :=
  ∀ names, scope.classifyLexicalPath (other.workspace.joinAll names) = .outOfScope ∧
    scope.classifyCanonicalPath fs (other.workspace.joinAll names) = .outOfScope

/-- Neither location is inside the other. -/
def Apart (q r : List String) : Prop := ¬q <+: r ∧ ¬r <+: q

instance (q r : List String) : Decidable (Apart q r) := inferInstanceAs (Decidable (_ ∧ _))

section

variable {fs : FileSystem} {root : Path} {s t : String} {zones : List Path}

/-- What a zone adds to the root, if it is on the way to a workspace, begins with the subtree of the
users. Such a zone is not accepted. -/
theorem zone_not_prefix {zone : Path} (h : ZoneOk root zone) (hroot : root.start = .root)
    (names : List String) :
    ¬zone.parts <+: root.parts ++ (multiTenantUsersDirName :: names).map .normal := by
  obtain ⟨hne, hsub, husers⟩ := h
  have hzone : zone.start = .root := Path.start_of_startsWith hsub hroot
  rw [Path.startsWith_iff hzone hroot] at hsub
  obtain ⟨rest, hrest⟩ := hsub
  intro hpre
  rw [← hrest, prefix_append_right_inj, map_cons] at hpre
  cases rest with
  | nil =>
    -- the zone would be the root itself
    apply hne
    cases zone
    cases root
    simp_all
  | cons c rest =>
    obtain ⟨rfl, -⟩ := cons_prefix_cons.mp hpre
    have hjoin : (root.join multiTenantUsersDirName).start = .root := hroot
    rw [Bool.eq_false_iff, ne_eq, Path.startsWith_iff hzone hjoin, Path.join, ← hrest] at husers
    exact husers ((prefix_append_right_inj _).mpr (prefix_append [_] rest))

theorem not_workspace_prefix (h : s ≠ t) (names : List String) :
    ¬workspaceNames s <+: workspaceNames t ++ names := by
  intro hpre
  simp only [workspaceNames, cons_append, cons_prefix_cons] at hpre
  exact h hpre.2.1

theorem classifyLexicalPath_other (hroot : root.start = .root) (hne : s ≠ t)
    (hzones : ∀ zone ∈ zones, ZoneOk root zone) (tenant : String) (names : List String) :
    (ofProfile root (root.joinAll (workspaceNames s)) tenant s zones).classifyLexicalPath
      (root.joinAll (workspaceNames t ++ names)) = .outOfScope := by
  have hstart : (root.joinAll (workspaceNames t ++ names)).start = .root := hroot
  have hws : (root.joinAll (workspaceNames s)).start = .root := hroot
  rw [classifyLexicalPath]
  split
  · rename_i path hpath
    obtain rfl := lexicalNormalise_eq_some hstart hpath
    rw [classify_eq_outOfScope_iff]
    refine ⟨?_, by simp [ofProfile, grantedDirs], by simp [ofProfile], by simp [ofProfile], ?_⟩
    · rw [ofProfile, Bool.eq_false_iff, ne_eq, Path.startsWith_iff hstart hws]
      intro hpre
      apply not_workspace_prefix hne names
      apply (prefix_map_iff_of_injective fun _ _ h => Part.normal.inj h).mp
      exact (prefix_append_right_inj _).mp hpre
    · intro zone hzone
      have hok := hzones zone hzone
      rw [Bool.eq_false_iff, ne_eq, Path.startsWith_iff hstart (hok.absolute hroot)]
      exact zone_not_prefix hok hroot _
  · rfl

/-- A location is on the way to no path below another one exactly if the two are apart. -/
theorem apart_iff {q r : List String} : Apart q r ↔ ∀ names, ¬q <+: r ++ names := by
  constructor
  · intro h names hpre
    rcases List.prefix_or_prefix_of_prefix hpre (prefix_append r names) with hq | hr
    · exact h.1 hq
    · exact h.2 hr
  · intro h
    refine ⟨fun hq => h [] (by rwa [append_nil]), ?_⟩
    rintro ⟨names, rfl⟩
    exact h names prefix_rfl

/-- A zone spelled without a `..` is apart from every workspace. -/
theorem apart_of_plain (hroot : root.start = .root) (hfree : fs.LinkFree (fs.place root))
    {names : List String} (h : ZoneOk root (root.joinAll names)) (t : String) :
    Apart (fs.place (root.joinAll names)) (fs.place root ++ workspaceNames t) := by
  rw [FileSystem.place_joinAll hroot hfree, apart_iff]
  intro rest hpre
  rw [append_assoc, prefix_append_right_inj] at hpre
  apply zone_not_prefix h hroot ([t, multiTenantWorkspaceDirName] ++ rest)
  exact (prefix_append_right_inj _).mpr (hpre.map _)

variable {scope other : SessionScope} {tenant tenant' : String} {zones' : List Path}

section

variable (h : multiTenant root tenant s zones = .ok scope)
  (h' : multiTenant root tenant' t zones' = .ok other) (hne : s ≠ t)
  (hfree : fs.LinkFree (fs.place root))
include h h' hne hfree

/-- **One session is isolated from another** exactly if its zones are placed apart from the other's
workspace. -/
theorem isolated_from_iff : Isolated fs scope other ↔
    ∀ zone ∈ zones, Apart (fs.place zone) (fs.place root ++ workspaceNames t) := by
  have hbuilt : Built fs scope := .multiTenant h
  obtain ⟨hroot, hzones, rfl⟩ := multiTenant_eq_ok h
  obtain ⟨-, -, rfl⟩ := multiTenant_eq_ok h'
  have hpath : ∀ names, (ofProfile root (root.joinAll (workspaceNames t)) tenant' t
      zones').workspace.joinAll names = root.joinAll (workspaceNames t ++ names) := by
    intro names
    simp [ofProfile, Path.joinAll]
  have hplace : ∀ names, fs.place (root.joinAll names) = fs.place root ++ names :=
    FileSystem.place_joinAll hroot hfree
  -- Of the directories of the scope only the zones can hold a path of the other workspace.
  have hcanon : ∀ names,
      (ofProfile root (root.joinAll (workspaceNames s)) tenant s zones).classifyCanonicalPath fs
          (root.joinAll (workspaceNames t ++ names)) = .outOfScope ↔
        ∀ zone ∈ zones, ¬fs.place zone <+: (fs.place root ++ workspaceNames t) ++ names := by
    intro names
    have hstart : (root.joinAll (workspaceNames t ++ names)).start = .root := hroot
    rw [hbuilt.classifyCanonicalPath_eq hstart, classify_eq_outOfScope_iff]
    simp only [Bool.eq_false_iff, ne_eq, List.isPrefixOf_iff_prefix, hplace, ← append_assoc]
    constructor
    · exact fun h => h.2.2.2.2
    · intro h
      refine ⟨?_, by simp [ofProfile, grantedDirs], by simp [ofProfile], by simp [ofProfile], h⟩
      rw [ofProfile, hplace, append_assoc, prefix_append_right_inj]
      exact not_workspace_prefix hne names
  constructor
  · intro hiso zone hzone
    refine apart_iff.mpr fun names => ?_
    have := (hiso names).2
    rw [hpath] at this
    exact (hcanon names).mp this zone hzone
  · intro hapart names
    rw [hpath]
    exact ⟨classifyLexicalPath_other hroot hne hzones tenant names,
      (hcanon names).mpr fun zone hzone => apart_iff.mp (hapart zone hzone) names⟩

/-- **Plain zones keep the sessions isolated**: a session whose zones are all spelled with names
below the root sees no file of another session. -/
theorem isolated_of_plain_zones (hplain : ∀ zone ∈ zones, ∃ names, zone = root.joinAll names) :
    Isolated fs scope other := by
  obtain ⟨hroot, hzones, -⟩ := multiTenant_eq_ok h
  rw [isolated_from_iff h h' hne hfree]
  intro zone hzone
  obtain ⟨names, rfl⟩ := hplain zone hzone
  exact apart_of_plain hroot hfree (hzones _ hzone) t

end

/-- **Sessions of a profile without links are isolated from each other** exactly if the zones of
each are placed apart from the workspace of the other. -/
theorem isolated_iff_apart {scope other : SessionScope} {tenant tenant' : String}
    {zones' : List Path} (h : multiTenant root tenant s zones = .ok scope)
    (h' : multiTenant root tenant' t zones' = .ok other) (hne : s ≠ t)
    (hfree : fs.LinkFree (fs.place root)) :
    (Isolated fs scope other ∧ Isolated fs other scope) ↔
      (∀ zone ∈ zones, Apart (fs.place zone) (fs.place root ++ workspaceNames t)) ∧
      ∀ zone ∈ zones', Apart (fs.place zone) (fs.place root ++ workspaceNames s) :=
  and_congr (isolated_from_iff h h' hne hfree) (isolated_from_iff h' h hne.symm hfree)

/-- **A session with the default zones sees no file of another session**, whatever the zones of the
other. -/
theorem isolated_defaultZones (h : multiTenantWithDefaultZones root tenant s = .ok scope)
    (h' : multiTenant root tenant' t zones' = .ok other) (hne : s ≠ t)
    (hfree : fs.LinkFree (fs.place root)) : Isolated fs scope other := by
  apply isolated_of_plain_zones h h' hne hfree
  intro zone hzone
  obtain ⟨name, -, rfl⟩ := mem_map.mp hzone
  exact ⟨[name], rfl⟩

end

/-! ## A zone that climbs back to the users -/

/-- A profile at `/p` that has a directory `research`. -/
def profileTree : FileSystem := .ofDirs [["p"], ["p", "research"]]

def profileRoot : Path := .absolute ["p"]

def researchZone : Path := .absolute ["p", "research"]

/-- The zone `/p/research/../users`: its text is neither the root nor in the subtree of the
users. -/
def climbingZone : Path :=
  ⟨.root, [.normal "p", .normal "research", .parentDir, .normal "users"]⟩

def profileScope (sessionId : String) (zones : List Path) : SessionScope :=
  ofProfile profileRoot (profileRoot.joinAll (workspaceNames sessionId)) "t" sessionId zones

theorem isolated_defaultZones_profile :
    ∃ scope, multiTenantWithDefaultZones profileRoot "t" "s1" = .ok scope ∧
      Isolated profileTree scope (profileScope "s2" [climbingZone]) := by
  have h₁ : multiTenantWithDefaultZones profileRoot "t" "s1" = .ok _ := rfl
  have h₂ : multiTenant profileRoot "t" "s2" [climbingZone] =
      .ok (profileScope "s2" [climbingZone]) := rfl
  exact ⟨_, h₁, isolated_defaultZones h₁ h₂ (by decide) (FileSystem.linkFree_ofDirs _ _)⟩

theorem isolated_iff_apart_research :
    Isolated profileTree (profileScope "s1" [researchZone]) (profileScope "s2" []) ∧
      Isolated profileTree (profileScope "s2" []) (profileScope "s1" [researchZone]) := by
  have h₁ : multiTenant profileRoot "t" "s1" [researchZone] =
      .ok (profileScope "s1" [researchZone]) := rfl
  have h₂ : multiTenant profileRoot "t" "s2" [] = .ok (profileScope "s2" []) := rfl
  exact (isolated_iff_apart h₁ h₂ (by decide) (FileSystem.linkFree_ofDirs _ _)).mpr (by decide)

/-- The climbing zone is accepted, and through it one session has the notes of the other in its
scope. -/
theorem climbing_zone_reaches_other :
    multiTenant profileRoot "t" "s1" [climbingZone] = .ok (profileScope "s1" [climbingZone]) ∧
      multiTenant profileRoot "t" "s2" [] = .ok (profileScope "s2" []) ∧
      profileTree.LinkFree (profileTree.place profileRoot) ∧
      (profileScope "s1" [climbingZone]).classifyCanonicalPath profileTree
        ((profileScope "s2" []).workspace.joinAll ["notes.md"]) = .inSharedZone climbingZone :=
  ⟨rfl, rfl, FileSystem.linkFree_ofDirs _ _, by decide⟩

end Octos.Scope
