import Mathlib.Data.List.Infix
import Mathlib.Data.List.TakeWhile
import Octos.Agent.Ordering

/-!
# Refitting a conversation for a route

A request that does not fit a route drops its oldest rows behind the leading system rows. The
provider's window and its estimate are parameters.

## Main results

* `refit_soundComplete_iff`: when the suffixes that are tried are all that may be kept
-/

namespace Octos.Agent

open List

/-- A provider's window, and its estimate of a request. -/
structure Route where
  contextWindow : ℕ
  estimateRequestTokens : List Message → ℕ

def Route.fitsRequest (r : Route) (messages : List Message) : Bool :=
  r.estimateRequestTokens messages ≤ r.contextWindow - max 64 (min (r.contextWindow / 8) 1024)

/-- The number of leading system rows, and zero if there is no other row. -/
def systemEnd (messages : List Message) : ℕ := (messages.findIdx? (·.role ≠ .system)).getD 0

/-- Drop the oldest rows behind the leading system rows. The suffixes are tried from the longest on;
the loop ends before the final row, and passes those that start on a tool row. -/
def mechanicalRouteRefit (r : Route) (messages : List Message) : Option (List Message) :=
  let sys := messages.take (systemEnd messages)
  let suffixes := (messages.drop (systemEnd messages + 1)).tails
  (suffixes.find? fun kept => 2 ≤ kept.length ∧ kept.head?.any (·.isTool) = false ∧
    r.fitsRequest (sys ++ kept)).map (sys ++ ·)

/-- The rows behind the leading system rows. -/
def turns (messages : List Message) : List Message := messages.dropWhile (·.role = .system)

/-- A proper suffix of the turns that holds the final row and does not start on a tool row. -/
def MayKeep (messages kept : List Message) : Prop :=
  kept <:+ turns messages ∧ kept ≠ turns messages ∧ kept ≠ [] ∧ kept.head?.any (·.isTool) = false

/-- A suffix behind the leading system rows. -/
def candidate (messages kept : List Message) : List Message :=
  messages.takeWhile (·.role = .system) ++ kept

/-- What is returned is a suffix that may be kept and fits, and nothing only if there is none. -/
def SoundComplete (r : Route) (messages : List Message) : Prop :=
  (∀ c, mechanicalRouteRefit r messages = some c →
    ∃ kept, MayKeep messages kept ∧ c = candidate messages kept ∧ r.fitsRequest c = true) ∧
  (mechanicalRouteRefit r messages = none → ∀ kept, MayKeep messages kept →
    r.fitsRequest (candidate messages kept) = false)

variable {r : Route} {messages : List Message}

/-- With a turn, the suffixes behind it are tried. -/
theorem exists_turns (r : Route) (h : turns messages ≠ []) :
    ∃ sys t rest, turns messages = t :: rest ∧ (∀ kept, candidate messages kept = sys ++ kept) ∧
      mechanicalRouteRefit r messages = (rest.tails.find? fun kept => 2 ≤ kept.length ∧
        kept.head?.any (·.isTool) = false ∧ r.fitsRequest (sys ++ kept)).map (sys ++ ·) := by
  obtain ⟨t, rest, heq⟩ := exists_cons_of_ne_nil h
  set sys := messages.takeWhile (·.role = .system) with hsys
  have hsplit : messages = sys ++ t :: rest := by
    rw [← heq]
    exact takeWhile_append_dropWhile.symm
  have ht : t.role ≠ .system := by
    have hhead := head_dropWhile_not (fun m : Message => decide (m.role = .system)) h
    have hrow : (turns messages).head h = t := by simp [heq]
    exact hrow ▸ of_decide_eq_false hhead
  have hend : systemEnd messages = sys.length := by
    have hnone : sys.findIdx? (·.role ≠ .system) = none :=
      findIdx?_eq_none_iff.mpr fun m hm => by simpa using mem_takeWhile_imp hm
    rw [systemEnd, hsplit, findIdx?_append, hnone]
    simp [findIdx?_cons, ht]
  refine ⟨sys, t, rest, heq, fun kept => rfl, ?_⟩
  rw [mechanicalRouteRefit, hend, hsplit, take_left, drop_length_add_append]
  rfl

/-- **When refitting is sound and complete.** Behind a turn: if the final row alone may be kept and
fits, then a longer suffix does. Without a turn: no suffix of two rows fits, since then the system
rows are dropped as well. -/
theorem refit_soundComplete_iff (r : Route) (messages : List Message) :
    SoundComplete r messages ↔
      (turns messages = [] → ∀ kept, kept <:+ messages.tail → 2 ≤ kept.length →
        r.fitsRequest kept = false) ∧
      ∀ m, MayKeep messages [m] → r.fitsRequest (candidate messages [m]) = true →
        ∃ kept, MayKeep messages kept ∧ 2 ≤ kept.length ∧
          r.fitsRequest (candidate messages kept) = true := by
  by_cases hturns : turns messages = []
  · have hsys : ∀ m ∈ messages, m.role = .system := by simpa using dropWhile_eq_nil_iff.mp hturns
    have hkeeps : ∀ kept, ¬ MayKeep messages kept := fun kept hk =>
      hk.2.2.1 (suffix_nil.mp (hturns ▸ hk.1))
    have hend : systemEnd messages = 0 := by
      rw [systemEnd, findIdx?_eq_none_iff.mpr fun m hm => by simp [hsys m hm]]
      rfl
    -- Nothing may be kept, so only the answer none is right.
    have hiff : SoundComplete r messages ↔ mechanicalRouteRefit r messages = none := by
      rw [Option.eq_none_iff_forall_ne_some]
      constructor
      · intro h c hc
        obtain ⟨kept, hk, -⟩ := h.1 c hc
        exact hkeeps kept hk
      · exact fun h => ⟨fun c hc => (h c hc).elim, fun _ kept hk => (hkeeps kept hk).elim⟩
    have hhead : ∀ kept, kept <:+ messages.tail → kept.head?.any (·.isTool) = false := by
      intro kept hk
      rw [Option.any_eq_false]
      intro m hm
      simp [Message.isTool, hsys m (mem_of_mem_tail (hk.subset (mem_of_mem_head? hm)))]
    simp only [hiff, mechanicalRouteRefit, hend, Option.map_eq_none_iff, find?_eq_none, mem_tails,
      decide_eq_true_eq, not_and, Bool.not_eq_true, Nat.zero_add, drop_one, take_zero, nil_append]
    exact ⟨fun h => ⟨fun _ kept hk hlen => h kept hk hlen (hhead kept hk),
      fun m hk => (hkeeps _ hk).elim⟩, fun h kept hk hlen _ => h.1 hturns kept hk hlen⟩
  · obtain ⟨sys, t, rest, heq, hcand, hrefit⟩ := exists_turns r hturns
    have hkeeps : ∀ kept, MayKeep messages kept ↔
        kept <:+ rest ∧ kept ≠ [] ∧ kept.head?.any (·.isTool) = false := by
      intro kept
      rw [MayKeep, heq, suffix_cons_iff]
      refine ⟨fun ⟨hs, hne, hk⟩ => ⟨hs.resolve_left hne, hk⟩,
        fun ⟨hs, hk⟩ => ⟨.inr hs, fun h => ?_, hk⟩⟩
      exact absurd (h ▸ hs).length_le (by simp)
    simp only [SoundComplete, hrefit, hcand, hkeeps, Option.map_eq_none_iff, Option.map_eq_some_iff,
      find?_eq_none, mem_tails, decide_eq_true_eq]
    refine ⟨fun h => ⟨fun hnil => absurd hnil hturns, fun m hk hfits => ?_⟩,
      fun h => ⟨?_, fun hn kept hk => ?_⟩⟩
    · by_contra hnot
      refine absurd (h.2 (fun kept hs hk => ?_) _ hk) (by simpa using hfits)
      exact hnot ⟨kept, ⟨hs, ne_nil_of_length_pos (by omega), hk.2.1⟩, hk.1, hk.2.2⟩
    · rintro c ⟨kept, hfind, rfl⟩
      have hk := find?_some hfind
      rw [decide_eq_true_eq] at hk
      have hs := (mem_tails ..).mp (mem_of_find?_eq_some hfind)
      exact ⟨kept, ⟨hs, ne_nil_of_length_pos (by omega), hk.2.1⟩, rfl, hk.2.2⟩
    · by_contra hfits
      rw [Bool.not_eq_false] at hfits
      by_cases hlen : 2 ≤ kept.length
      · exact hn kept hk.1 ⟨hlen, hk.2.2, hfits⟩
      · have hpos := length_pos_iff.mpr hk.2.1
        obtain ⟨m, rfl⟩ := length_eq_one_iff.mp (show kept.length = 1 by omega)
        obtain ⟨kept', hk', hlen', hfits'⟩ := h.2 m hk hfits
        exact hn kept' hk'.1 ⟨hlen', hk'.2.2, hfits'⟩

/-- Of two user rows the final one alone would fit, and is not tried. -/
theorem final_row_not_tried : ¬ SoundComplete ⟨100, fun l => 30 * l.length⟩
    [bareRow .user none none, bareRow .user none none] := by
  intro h
  have hkeeps : MayKeep [bareRow .user none none, bareRow .user none none]
      [bareRow .user none none] := ⟨⟨[_], rfl⟩, by simp [turns, bareRow], by simp, rfl⟩
  exact absurd (h.2 rfl _ hkeeps) (by decide)

end Octos.Agent
