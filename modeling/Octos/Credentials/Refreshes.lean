import Octos.Base.Threads
import Octos.Credentials.Selection

/-!
# Refreshes

`mark_auth_failure` looks up and replaces the last error id under the lock of the pool, calls the
refresher without the lock, and takes the lock again when the refresher is done. Between the two any
number of other failures may be reported. The pool remembers one error id only, so an error that is
reported again after another one is refreshed again; as long as an error id comes back only while no
other was reported in between, each is refreshed at most once.

## Main results

* `refresh_at_most_once`: each error id is refreshed at most once
* `alternating_errors_refresh_twice`: two errors that alternate
-/

namespace Octos.Credentials

open List

/-- A pool, and what its refresher and its lock have seen. -/
structure RefreshWorld where
  pool : CredentialPool
  /-- The errors that were looked up, in the order in which the lock was taken. -/
  entered : List UInt64
  /-- The errors the refresher was called for. -/
  invoked : List UInt64

/-- The sections of `mark_auth_failure`. -/
inductive RefreshAct
  | enter (id : String) (errorId : UInt64)
  | invoke (id : String) (errorId : UInt64)
  | finish (id : String)

/-- What a section meets: the outcome of the refresh, the clock, and the outcome of the
transaction. -/
structure RefreshReading where
  refreshed : Except String String
  now : UInt64
  disk : Except String Unit

namespace RefreshAct

/-- A section, with the sections that follow from it. -/
def exec (r : RefreshReading) (w : RefreshWorld) :
    RefreshAct → RefreshWorld × Option (List RefreshAct)
  | enter id errorId =>
    match w.pool.enterAuthFailure id errorId with
    | (.error _, q) => ({ w with pool := q }, some [])
    | (.ok false, q) => ({ w with pool := q, entered := w.entered ++ [errorId] }, some [])
    | (.ok true, q) =>
      ({ w with pool := q, entered := w.entered ++ [errorId] }, some [invoke id errorId])
  | invoke id errorId => ({ w with invoked := w.invoked ++ [errorId] }, some [finish id])
  | finish id => ({ w with pool := (w.pool.finishRefresh id r.refreshed r.now r.disk).2 }, some [])

/-- The section is the call of the refresher for the error. -/
def invokes (e : UInt64) : RefreshAct → ℕ
  | invoke _ errorId => if errorId = e then 1 else 0
  | enter _ _ => 0
  | finish _ => 0

end RefreshAct

/-- A call of `mark_auth_failure`: the credential and the error. -/
abbrev RefreshCall := String × UInt64

variable (p : Pool RefreshWorld RefreshAct)

def refreshStep (m : Move RefreshCall RefreshReading) : Pool RefreshWorld RefreshAct :=
  p.step (fun call => [.enter call.1 call.2]) RefreshAct.exec m

/-- No call has begun. -/
def RefreshWorld.idle (pool : CredentialPool) : Pool RefreshWorld RefreshAct := ⟨⟨pool, [], []⟩, []⟩

/-- An error that was reported on a healthy credential comes back on one only while no other error
was reported in between. -/
def ComesBackLast : Move RefreshCall RefreshReading → Prop
  | .spawn _ => True
  | .run i _ =>
    match p.next i with
    | some (.enter id errorId) =>
      id ∉ p.shared.pool.corruptState → errorId ∈ p.shared.entered →
        p.shared.entered.getLast? = some errorId
    | _ => True

/-- The calls of the refresher for an error, made and to be made. -/
def callsFor (e : UInt64) : ℕ :=
  p.total (RefreshAct.invokes e) + p.shared.invoked.count e

/-- No two calls of the refresher are for the same error, each is for one that was looked up, and
the pool remembers the last one of these. -/
structure RefreshedOnce (p : Pool RefreshWorld RefreshAct) : Prop where
  once : ∀ e, callsFor p e ≤ 1
  entered : ∀ e, e ∉ p.shared.entered → callsFor p e = 0
  last : ∀ e, p.shared.entered.getLast? = some e → p.shared.pool.lastRefreshErrorId = some e

/-! ## One section -/

variable {p : Pool RefreshWorld RefreshAct} {i : ℕ} {r : RefreshReading} {w : RefreshWorld}
  {id : String} {errorId : UInt64}

theorem exec_enter_corrupt (h : id ∈ w.pool.corruptState) :
    RefreshAct.exec r w (.enter id errorId) = (w, some []) := by
  simp [RefreshAct.exec, CredentialPool.enterAuthFailure, h]

theorem exec_enter (h : id ∉ w.pool.corruptState) :
    RefreshAct.exec r w (.enter id errorId) =
      ({ w with pool := w.pool.noteError errorId, entered := w.entered ++ [errorId] },
        some (if w.pool.lastRefreshErrorId = some errorId then [] else [.invoke id errorId])) := by
  by_cases hlast : w.pool.lastRefreshErrorId = some errorId
  · simp [RefreshAct.exec, CredentialPool.enterAuthFailure, h, hlast]
  · have hne : (w.pool.lastRefreshErrorId != some errorId) = true := bne_iff_ne.mpr hlast
    simp [RefreshAct.exec, CredentialPool.enterAuthFailure, h, hlast, hne]

variable {a : RefreshAct}

theorem total_refreshStep (hnext : p.next i = some a) (e : UInt64) :
    (refreshStep p (.run i r)).total (RefreshAct.invokes e) + a.invokes e ≤
      p.total (RefreshAct.invokes e) +
        (((a.exec r p.shared).2.getD []).map (RefreshAct.invokes e)).sum :=
  Pool.total_run (RefreshAct.invokes e) hnext

theorem callsFor_refreshStep (hnext : p.next i = some a) (e : UInt64) :
    callsFor (refreshStep p (.run i r)) e ≤ callsFor p e ∨
    callsFor (refreshStep p (.run i r)) e ≤ callsFor p e + 1 ∧
      ∃ id, a = .enter id e ∧ id ∉ p.shared.pool.corruptState ∧
        p.shared.pool.lastRefreshErrorId ≠ some e := by
  have hshared : (refreshStep p (.run i r)).shared = (a.exec r p.shared).1 := Pool.shared_run hnext
  have htotal := total_refreshStep (r := r) hnext e
  rw [callsFor, callsFor, hshared]
  cases a with
  | enter id errorId =>
    by_cases hcorrupt : id ∈ p.shared.pool.corruptState
    · rw [exec_enter_corrupt hcorrupt] at htotal ⊢
      exact .inl (Nat.add_le_add_right htotal _)
    · rw [exec_enter hcorrupt] at htotal ⊢
      by_cases hlast : p.shared.pool.lastRefreshErrorId = some errorId
      · rw [if_pos hlast] at htotal
        exact .inl (Nat.add_le_add_right htotal _)
      · rw [if_neg hlast] at htotal
        simp only [Option.getD_some, map_cons, map_nil, sum_cons, sum_nil,
          RefreshAct.invokes] at htotal
        by_cases heq : errorId = e
        · subst heq
          rw [if_pos rfl] at htotal
          exact .inr ⟨by dsimp only; omega, id, rfl, hcorrupt, hlast⟩
        · rw [if_neg heq] at htotal
          exact .inl (by dsimp only; omega)
  | invoke =>
    simp only [RefreshAct.exec, Option.getD_some, map_cons, map_nil, sum_cons, sum_nil,
      RefreshAct.invokes, count_append, count_singleton, beq_iff_eq] at htotal ⊢
    exact .inl (by omega)
  | finish => exact .inl (Nat.add_le_add_right htotal _)

theorem entered_refreshStep (hnext : p.next i = some a) {e : UInt64} (h : e ∈ p.shared.entered) :
    e ∈ (refreshStep p (.run i r)).shared.entered := by
  have hshared : (refreshStep p (.run i r)).shared = (a.exec r p.shared).1 := Pool.shared_run hnext
  rw [hshared]
  cases a with
  | enter id =>
    by_cases hcorrupt : id ∈ p.shared.pool.corruptState
    · rw [exec_enter_corrupt hcorrupt]
      exact h
    · rw [exec_enter hcorrupt]
      exact mem_append_left _ h
  | invoke => exact h
  | finish => exact h

theorem lastRefreshErrorId_finishRefresh (q : CredentialPool) :
    (q.finishRefresh id r.refreshed r.now r.disk).2.lastRefreshErrorId = q.lastRefreshErrorId := by
  obtain ⟨refreshed, now, disk⟩ := r
  cases refreshed with
  | ok => cases disk <;> rfl
  | error =>
    rw [CredentialPool.finishRefresh, CredentialPool.markRateLimited]
    split_ifs
    · rfl
    · rfl
    · cases disk <;> rfl

theorem last_refreshStep (hnext : p.next i = some a)
    (h : ∀ e, p.shared.entered.getLast? = some e → p.shared.pool.lastRefreshErrorId = some e)
    (e : UInt64) (he : (refreshStep p (.run i r)).shared.entered.getLast? = some e) :
    (refreshStep p (.run i r)).shared.pool.lastRefreshErrorId = some e := by
  have hshared : (refreshStep p (.run i r)).shared = (a.exec r p.shared).1 := Pool.shared_run hnext
  rw [hshared] at he ⊢
  cases a with
  | enter id errorId =>
    by_cases hcorrupt : id ∈ p.shared.pool.corruptState
    · rw [exec_enter_corrupt hcorrupt] at he ⊢
      exact h e he
    · rw [exec_enter hcorrupt] at he ⊢
      rw [getLast?_concat] at he
      exact he
  | invoke => exact h e he
  | finish id => exact (lastRefreshErrorId_finishRefresh _).trans (h e he)

theorem refreshedOnce_run (hp : RefreshedOnce p) (hnext : p.next i = some a)
    (hok : ComesBackLast p (.run i r)) : RefreshedOnce (refreshStep p (.run i r)) := by
  refine ⟨fun e => ?_, fun e he => ?_, last_refreshStep hnext hp.last⟩
  · rcases callsFor_refreshStep (r := r) hnext e with hle | ⟨hle, id, rfl, hhealthy, hlast⟩
    · exact hle.trans (hp.once e)
    · -- the error was not looked up before: it would be the last one
      rw [ComesBackLast, hnext] at hok
      have hnew := hp.entered e fun hmem => hlast (hp.last e (hok hhealthy hmem))
      omega
  · rcases callsFor_refreshStep (r := r) hnext e with hle | ⟨-, id, rfl, hhealthy, -⟩
    · have hold := hp.entered e fun hmem => he (entered_refreshStep hnext hmem)
      omega
    · have hshared : (refreshStep p (.run i r)).shared = _ := Pool.shared_run hnext
      rw [hshared, exec_enter hhealthy] at he
      exact absurd (mem_append_right _ (mem_singleton.mpr rfl)) he

theorem refreshedOnce_spawn (call : RefreshCall) (hp : RefreshedOnce p) :
    RefreshedOnce (refreshStep p (.spawn call)) := by
  have hcalls : ∀ e, callsFor (refreshStep p (.spawn call)) e = callsFor p e := by
    intro e
    have htotal : (refreshStep p (.spawn call)).total (RefreshAct.invokes e) = _ :=
      Pool.total_spawn (RefreshAct.invokes e) call
    rw [callsFor, htotal]
    rfl
  exact ⟨fun e => hcalls e ▸ hp.once e, fun e he => hcalls e ▸ hp.entered e he, hp.last⟩

/-- **The refresher is called at most once for each error id, in every interleaving of
`mark_auth_failure` in which an error id comes back only while it was reported last.** -/
theorem refresh_at_most_once (pool : CredentialPool)
    (moves : List (Move RefreshCall RefreshReading))
    (h : Guarded refreshStep ComesBackLast (RefreshWorld.idle pool) moves) (e : UInt64) :
    (runSteps refreshStep (RefreshWorld.idle pool) moves).shared.invoked.count e ≤ 1 := by
  have hidle : RefreshedOnce (RefreshWorld.idle pool) :=
    ⟨fun e => Nat.zero_le 1, fun e _ => rfl, nofun⟩
  have hinv : RefreshedOnce (runSteps refreshStep (RefreshWorld.idle pool) moves) :=
    Pool.invariant (fun p call hp _ => refreshedOnce_spawn call hp)
      (fun p i r a hp hnext hok => refreshedOnce_run hp hnext hok) h hidle
  exact (Nat.le_add_left ..).trans (hinv.once e)

def freshPool : CredentialPool :=
  match openPool .create (oneKey .roundRobin) 1000000 with
  | .ok pool => pool
  | .error _ => ⟨"", .roundRobin, 0, .create, [], .empty, [], none, 0, 0, []⟩

def newSecret : RefreshReading := ⟨.ok "secret-b", 2000000, .ok ()⟩

/-- Two requests report one error; the refresh of the second report begins first. -/
def sameErrorTwice : List (Move RefreshCall RefreshReading) :=
  [.spawn ("key-a", 42), .spawn ("key-a", 42), .run 1 newSecret, .run 1 newSecret, .run 0 newSecret,
    .run 1 newSecret]

theorem refresh_at_most_once_sameError :
    (runSteps refreshStep (RefreshWorld.idle freshPool)
      sameErrorTwice).shared.invoked.count 42 ≤ 1 :=
  refresh_at_most_once freshPool sameErrorTwice
    ⟨trivial, trivial, fun _ h => (not_mem_nil h).elim, trivial, fun _ _ => rfl, trivial, trivial⟩
    42

/-- Reports of two errors that alternate: the first is refreshed again. -/
theorem alternating_errors_refresh_twice :
    (runSteps refreshStep (RefreshWorld.idle freshPool)
      (Move.alone 0 ("key-a", 1) newSecret 3 ++ Move.alone 1 ("key-a", 2) newSecret 3 ++
        Move.alone 2 ("key-a", 1) newSecret 3)).shared.invoked = [1, 2, 1] := rfl

end Octos.Credentials
