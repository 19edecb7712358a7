import Octos.Agent.Compaction

/-!
# Carrying a plan from summary to summary

Each compaction pass finds the plan of the conversation in the summary of the pass before it. What
it finds is the plan again exactly if the plan fits the bytes that its estimated tokens stand for,
and if no later message holds a block of its own. The estimate takes a token for four bytes, and a
token of characters of three or four bytes is longer, so a plan far below the cap can be cut.

## Main results

* `extractPlanBlock_prepend`: what is read back from a summary
* `plan_carried_iff`: which passes keep the plan
-/

namespace Octos.Agent

open List Option

/-! ## The sentinels -/

theorem planBlockBegin_ne_nil : planBlockBegin ≠ [] := by decide +kernel

theorem planBlockEnd_ne_nil : planBlockEnd ≠ [] := by decide

theorem newline_not_mem_begin : '\n' ∉ planBlockBegin := by decide +kernel

theorem newline_not_mem_end : '\n' ∉ planBlockEnd := by decide

/-- A text without sentinels. -/
def Clean (l : Text) : Prop := ¬ planBlockBegin <:+: l ∧ ¬ planBlockEnd <:+: l

theorem isNone_splitFirst {pat l : Text} : (splitFirst pat l).isNone = true ↔ ¬ pat <:+: l := by
  rw [isNone_iff_eq_none, splitFirst_eq_none_iff]

theorem clean_stripPlanBlocks (summary : Text) : Clean (stripPlanBlocks summary) := by
  have hsub : ∀ l : Text, Clean l → Clean (trimStart l) := fun l h =>
    ⟨fun hi => h.1 (hi.trans (dropWhile_suffix _).isInfix),
      fun hi => h.2 (hi.trans (dropWhile_suffix _).isInfix)⟩
  refine hsub _ ?_
  split_ifs with hsome
  · have hlines : ∀ line ∈ (lines (cutPlanBlocks summary.length summary)).filter fun line =>
        (splitFirst planBlockBegin line).isNone && (splitFirst planBlockEnd line).isNone,
        Clean line := by
      intro line hline
      have hkeep := (mem_filter.mp hline).2
      rw [Bool.and_eq_true, isNone_splitFirst, isNone_splitFirst] at hkeep
      exact hkeep
    exact ⟨not_infix_joinLines planBlockBegin_ne_nil newline_not_mem_begin
      fun l hl => (hlines l hl).1,
      not_infix_joinLines planBlockEnd_ne_nil newline_not_mem_end fun l hl => (hlines l hl).2⟩
  · rw [Bool.or_eq_true, not_or, not_isSome_iff_eq_none, not_isSome_iff_eq_none,
      splitFirst_eq_none_iff, splitFirst_eq_none_iff] at hsome
    exact hsome

/-! ## Reading a plan back -/

/-- A plan as it stands in a summary: something, without white space at its ends or the end
sentinel. -/
structure Carriable (plan : Text) : Prop where
  ne_nil : plan ≠ []
  trimmed : Trimmed plan
  free : ¬ planBlockEnd <:+: plan

/-- The bytes that a budget leaves for the plan. -/
def planBytes (maxPlanBytes : ℕ) : ℕ := max 200 (min maxPlanBytes planSnapshotMaxBytes)

/-- The plan as a budget leaves it. -/
def clipPlan (plan : Text) (maxPlanBytes : ℕ) : Text :=
  truncateUtf8 plan (planBytes maxPlanBytes) planTruncated

variable {plan summary : Text} {maxPlanBytes : ℕ}

theorem Carriable.clipPlan (h : Carriable plan) (maxPlanBytes : ℕ) :
    Carriable (clipPlan plan maxPlanBytes) := by
  unfold Agent.clipPlan truncateUtf8
  split_ifs with hfits
  · exact h
  · have hbytes : 200 ≤ planBytes maxPlanBytes := Nat.le_max_left ..
    obtain ⟨c, cs, rfl⟩ := exists_cons_of_ne_nil h.ne_nil
    have hc : c.utf8Size ≤ planBytes maxPlanBytes := (Char.utf8Size_le_four c).trans (by omega)
    refine ⟨?_, ⟨?_, ?_⟩, ?_⟩
    · rw [takeBytes, if_pos hc]
      exact cons_ne_nil _ _
    · rw [takeBytes, if_pos hc]
      exact h.trimmed.1
    · intro d hd
      rw [getLast?_append] at hd
      have hlast : planTruncated.getLast? = some ')' := by decide
      cases hd
      decide
    · have hcut : ¬ planBlockEnd <:+: takeBytes (planBytes maxPlanBytes) (c :: cs) := fun hi =>
        h.free (hi.trans (takeBytes_isPrefix ..).isInfix)
      rw [planTruncated, ← occurrences_eq_zero_iff, occurrences_append_cons newline_not_mem_end
        planBlockEnd_ne_nil, occurrences_eq_zero_iff.mpr hcut]
      decide

theorem prependPlanBlock_eq : prependPlanBlock summary (some plan) maxPlanBytes =
    planBlockBegin ++ '\n' :: (clipPlan plan maxPlanBytes ++ '\n' :: (planBlockEnd ++
      '\n' :: '\n' :: stripPlanBlocks summary)) := rfl

theorem trim_newlines (h : Trimmed plan) (hne : plan ≠ []) :
    trim ('\n' :: plan ++ ['\n']) = plan := by
  have hstart : trimStart ('\n' :: plan ++ ['\n']) = plan ++ ['\n'] := by
    obtain ⟨c, cs, rfl⟩ := exists_cons_of_ne_nil hne
    have hc : isSpace c = false := h.1 c rfl
    simp [trimStart, hc, show isSpace '\n' = true by decide]
  rw [trim, hstart, trimEnd_append_space (by decide), trimEnd_eq_self h.2]

/-- **What is read back from a summary is the plan as its budget left it.** -/
theorem extractPlanBlock_prepend (h : Carriable plan) :
    extractPlanBlock (prependPlanBlock summary (some plan) maxPlanBytes) =
      some (clipPlan plan maxPlanBytes) := by
  have hclip := h.clipPlan maxPlanBytes
  have hfree : ¬ planBlockEnd <:+: '\n' :: clipPlan plan maxPlanBytes := by
    rw [← occurrences_eq_zero_iff]
    have hsplit := occurrences_append_cons newline_not_mem_end planBlockEnd_ne_nil []
      (clipPlan plan maxPlanBytes)
    rw [nil_append] at hsplit
    rw [hsplit, occurrences_eq_zero_iff.mpr hclip.free]
    decide
  have hbody : splitFirst planBlockEnd ('\n' :: (clipPlan plan maxPlanBytes ++
      '\n' :: (planBlockEnd ++ '\n' :: '\n' :: stripPlanBlocks summary))) =
      some ('\n' :: clipPlan plan maxPlanBytes ++ ['\n'],
        '\n' :: '\n' :: stripPlanBlocks summary) := by
    rw [← cons_append, splitFirst_append_cons newline_not_mem_end planBlockEnd_ne_nil hfree,
      splitFirst_append_self planBlockEnd_ne_nil]
    rfl
  rw [prependPlanBlock_eq, extractPlanBlock, splitFirst_append_self planBlockBegin_ne_nil]
  simp only [bind_eq_bind, bind_some, hbody, trim_newlines hclip.trimmed hclip.ne_nil,
    if_neg hclip.ne_nil]

theorem carriable_of_extractPlanBlock {text : Text} (h : extractPlanBlock text = some plan) :
    Carriable plan := by
  unfold extractPlanBlock at h
  simp only [bind_eq_bind, bind_eq_some_iff] at h
  obtain ⟨⟨_, after⟩, -, ⟨body, rest⟩, hbody, h⟩ := h
  split_ifs at h with hne
  cases h
  obtain ⟨-, hfree⟩ := splitFirst_eq_some hbody planBlockEnd_ne_nil
  exact ⟨hne, trimmed_trim body, fun hi => hfree (hi.trans (trim_isInfix body))⟩

theorem occurrences_prepend (h : Clean (clipPlan plan maxPlanBytes)) :
    occurrences planBlockBegin (prependPlanBlock summary (some plan) maxPlanBytes) = 1 ∧
      occurrences planBlockEnd (prependPlanBlock summary (some plan) maxPlanBytes) = 1 := by
  have hstrip := clean_stripPlanBlocks summary
  rw [prependPlanBlock_eq]
  constructor
  · rw [occurrences_append_cons newline_not_mem_begin planBlockBegin_ne_nil,
      occurrences_append_cons newline_not_mem_begin planBlockBegin_ne_nil,
      occurrences_append_cons newline_not_mem_begin planBlockBegin_ne_nil,
      occurrences_cons newline_not_mem_begin planBlockBegin_ne_nil,
      occurrences_eq_zero_iff.mpr h.1, occurrences_eq_zero_iff.mpr hstrip.1]
    decide +kernel
  · rw [occurrences_append_cons newline_not_mem_end planBlockEnd_ne_nil,
      occurrences_append_cons newline_not_mem_end planBlockEnd_ne_nil,
      occurrences_append_cons newline_not_mem_end planBlockEnd_ne_nil,
      occurrences_cons newline_not_mem_end planBlockEnd_ne_nil,
      occurrences_eq_zero_iff.mpr h.2, occurrences_eq_zero_iff.mpr hstrip.2]
    decide

/-! ## Rendered plans -/

/-- Every line but the first starts with a dash. -/
def Listed (l : Text) : Prop := ∀ a b, l = a ++ '\n' :: b → b.head? = some '-'

theorem newline_not_mem_truncate {title : Text} (h : '\n' ∉ title) (n : ℕ) :
    '\n' ∉ truncateUtf8 title n ['…'] := by
  unfold truncateUtf8
  split_ifs
  · exact h
  · rw [mem_append, not_or]
    exact ⟨fun hm => h ((takeBytes_isPrefix n title).subset hm), by decide⟩

theorem planLine_cases (item : String × PlanItemStatus) :
    planLine item = [] ∨ ∃ l, planLine item = l ++ ['\n'] ∧ '\n' ∉ l ∧ l.head? = some '-' := by
  unfold planLine
  simp only
  split_ifs with htitle
  · exact .inl rfl
  · have hno : '\n' ∉ (trim item.1.toList).filter (!isControl ·) := by
      intro hm
      exact absurd (mem_filter.mp hm).2 (by decide)
    have hcut := newline_not_mem_truncate hno planTitleMaxBytes
    have hmark : '\n' ∉ item.2.marker := by
      cases item.2 <;> decide
    refine .inr ⟨'-' :: ' ' :: (item.2.marker ++ ' ' :: truncateUtf8
      ((trim item.1.toList).filter (!isControl ·)) planTitleMaxBytes ['…']), by simp, ?_, rfl⟩
    simp [hmark, hcut]

theorem planLines_listed (items : List (String × PlanItemStatus)) :
    (∀ c ∈ (items.flatMap planLine).head?, c = '-') ∧
      ∀ a b, items.flatMap planLine = a ++ '\n' :: b → b = [] ∨ b.head? = some '-' := by
  induction items with
  | nil => simp
  | cons item items ih =>
    rw [flatMap_cons]
    rcases planLine_cases item with hline | ⟨l, hline, hno, hhead⟩
    · rw [hline, nil_append]
      exact ih
    · rw [hline]
      refine ⟨?_, ?_⟩
      · obtain ⟨d, ds, rfl⟩ : ∃ d ds, l = d :: ds := by
          cases l with
          | nil => cases hhead
          | cons d ds => exact ⟨d, ds, rfl⟩
        intro c hc
        simp only [head?_cons, some.injEq] at hhead
        simp only [cons_append, head?_cons, mem_def, some.injEq] at hc
        exact hc ▸ hhead
      · intro a b hab
        rw [append_assoc, singleton_append] at hab
        have hnext : items.flatMap planLine = [] ∨ (items.flatMap planLine).head? = some '-' := by
          cases hl : items.flatMap planLine with
          | nil => exact .inl rfl
          | cons c cs => exact .inr (by rw [head?_cons, ih.1 c (by rw [hl]; rfl)])
        -- The line feed is in the rest, or it is the last character of the first line.
        rcases append_eq_append_iff.mp hab with ⟨t, ha, ht⟩ | ⟨t, hl, ht⟩
        · cases t with
          | nil => exact (List.cons.inj ht).2 ▸ hnext
          | cons c t => exact ih.2 t b (List.cons.inj ht).2
        · cases t with
          | nil => exact (List.cons.inj ht).2 ▸ hnext
          | cons c t =>
            refine absurd ?_ hno
            rw [hl, ← (List.cons.inj ht).1]
            simp

/-- **A rendered plan can be read back**, and its lines are those of a list. -/
theorem rendered_spec {parse : String → Option Json} {args : Json}
    (h : renderPlanChecklist parse args = some plan) : plan ≠ [] ∧ Trimmed plan ∧ Listed plan := by
  obtain ⟨args', -, h⟩ := bind_eq_some_iff.mp h
  simp only at h
  split_ifs at h with hne
  cases h
  obtain ⟨hhead, hfeeds⟩ := planLines_listed (normalizePlan args')
  set body := (normalizePlan args').flatMap planLine
  obtain ⟨t, ht⟩ : trimEnd body <+: body := List.rdropWhile_prefix ..
  refine ⟨hne, ⟨?_, getLast?_trimEnd body⟩, ?_⟩
  · intro c hc
    have hbody : body.head? = some c := by
      rw [← ht, head?_append, mem_def.mp hc]
      rfl
    rw [hhead c hbody]
    decide
  · intro a b hab
    cases b with
    | nil =>
      have hspace := getLast?_trimEnd body '\n' (by rw [hab]; simp)
      exact absurd hspace (by decide)
    | cons c b =>
      have hsplit : body = a ++ '\n' :: (c :: b ++ t) := by
        rw [← ht, hab]
        simp
      rcases hfeeds a _ hsplit with hnil | hdash
      · simp at hnil
      · simpa using hdash

theorem clipPlan_eq_self_iff (h : Listed plan) :
    clipPlan plan maxPlanBytes = plan ↔ utf8Len plan ≤ planBytes maxPlanBytes := by
  unfold clipPlan truncateUtf8
  split_ifs with hfits
  · exact iff_of_true rfl hfits
  · refine iff_of_false (fun heq => ?_) hfits
    have hdash := h (takeBytes (planBytes maxPlanBytes) plan) "… (plan truncated)".toList heq.symm
    exact absurd hdash (by decide)

/-! ## Passes -/

def summaryRow (s : Text) : Message :=
  ⟨.system, String.ofList s, [], none, none, none, none, none, 0, none, none⟩

/-- A row without a call that updates the plan. -/
def Message.PlansNothing (m : Message) : Prop :=
  ∀ call ∈ m.toolCalls.getD [], (logicalCall call.name call.arguments).1 ≠ "update_plan"

/-- The input of a further pass: the row that holds the summary, and the rows around it. -/
structure Pass where
  older : List Message
  carrier : Message
  newer : List Message
  budget : ℕ

def Pass.messages (p : Pass) : List Message := p.older ++ p.carrier :: p.newer

/-- The newest block in the rows behind the summary. -/
def Pass.newerBlock (p : Pass) : Option Text :=
  p.newer.reverse.findSome? fun m => extractPlanBlock m.content.toList

section

variable (parse : String → Option Json)

/-- The summary that a further pass produces. -/
def Pass.output (p : Pass) : Text := compactMessages parse p.messages p.budget

/-- The passes that follow a summary, each on the summary of the one before and with no later
update of the plan. -/
inductive Follows : Text → List Pass → Prop
  | nil {s : Text} : Follows s []
  | cons {s : Text} {p : Pass} {ps : List Pass} (hcarrier : p.carrier.content.toList = s)
    (hnone : ∀ m ∈ p.carrier :: p.newer, m.PlansNothing) (hrest : Follows (p.output parse) ps) :
    Follows s (p :: ps)

/-- The plan is read back from a summary, which holds one block. -/
def Keeps (plan s : Text) : Prop :=
  latestPlanSnapshot parse [summaryRow s] = some plan ∧
    occurrences planBlockBegin s = 1 ∧ occurrences planBlockEnd s = 1

end

def Fits (plan : Text) : Prop := utf8Len plan ≤ planBytes ((estimateTokens plan + 24) * 4)

instance : DecidablePred Fits := fun plan =>
  Nat.decLe (utf8Len plan) (planBytes ((estimateTokens plan + 24) * 4))

def planBudget (plan : Text) : ℕ := min (estimateTokens plan + 24) (2 ^ 32 - 1) * 4

theorem fits_iff : Fits plan ↔ utf8Len plan ≤ planBytes (planBudget plan) := by
  have hcap : planBytes (planBudget plan) = planBytes ((estimateTokens plan + 24) * 4) := by
    unfold planBytes planBudget planSnapshotMaxBytes
    omega
  rw [Fits, hcap]

variable {parse : String → Option Json}

theorem planOf_eq {m : Message} (h : m.PlansNothing) :
    planOf parse m = extractPlanBlock m.content.toList := by
  have hnone : (m.toolCalls.getD []).reverse.findSome? (planOfCall parse) = none := by
    refine findSome?_eq_none_iff.mpr fun call hcall => ?_
    exact if_neg (h call (mem_reverse.mp hcall))
  rw [planOf, hnone, none_or]

theorem snapshot_summaryRow (s : Text) :
    latestPlanSnapshot parse [summaryRow s] = extractPlanBlock s := by
  have hnone : (summaryRow s).PlansNothing := fun call hcall => absurd hcall not_mem_nil
  have hrow := @planOf_eq parse _ hnone
  simp only [latestPlanSnapshot, reverse_singleton, findSome?_singleton, hrow]
  simp [summaryRow]

theorem findSome?_congr {α β : Type} {f g : α → Option β} {l : List α} (h : ∀ a ∈ l, f a = g a) :
    l.findSome? f = l.findSome? g := by
  induction l with
  | nil => rfl
  | cons a l ih =>
    rw [findSome?_cons, findSome?_cons, h a mem_cons_self,
      ih fun b hb => h b (mem_cons_of_mem a hb)]

theorem Pass.snapshot {p : Pass} (hnone : ∀ m ∈ p.carrier :: p.newer, m.PlansNothing)
    (hcarrier : extractPlanBlock p.carrier.content.toList = some plan) :
    latestPlanSnapshot parse p.messages = some (p.newerBlock.getD plan) := by
  have hnewer : p.newer.reverse.findSome? (planOf parse) = p.newerBlock := by
    refine findSome?_congr fun m hm => ?_
    exact planOf_eq (hnone m (mem_cons_of_mem _ (mem_reverse.mp hm)))
  rw [latestPlanSnapshot, Pass.messages, reverse_append, reverse_cons,
    findSome?_append, findSome?_append, hnewer, findSome?_singleton,
    planOf_eq (hnone _ mem_cons_self), hcarrier]
  cases p.newerBlock <;> rfl

variable {messages : List Message} {budget : ℕ}

theorem compactMessages_eq (h : latestPlanSnapshot parse messages = some plan) :
    ∃ body, compactMessages parse messages budget =
      prependPlanBlock body (some plan) (planBudget plan) := by
  unfold compactMessages
  simp only [h, elim_some]
  exact ⟨_, rfl⟩

variable {found : Text}

theorem keeps_compactMessages_iff
    (h : latestPlanSnapshot parse messages = some found) (hfound : Carriable found)
    (hclean : Clean plan) :
    Keeps parse plan (compactMessages parse messages budget) ↔
      clipPlan found (planBudget found) = plan := by
  obtain ⟨body, hbody⟩ := @compactMessages_eq found parse messages budget h
  rw [Keeps, snapshot_summaryRow, hbody, extractPlanBlock_prepend hfound]
  constructor
  · rintro ⟨heq, -⟩
    exact some.inj heq
  · intro heq
    exact ⟨congrArg some heq, occurrences_prepend (heq ▸ hclean)⟩

theorem clipPlan_ne (hlisted : Listed plan) (hne : found ≠ plan) :
    clipPlan found maxPlanBytes ≠ plan := by
  unfold clipPlan truncateUtf8
  split_ifs
  · exact hne
  · intro heq
    have hdash := hlisted (takeBytes (planBytes maxPlanBytes) found) "… (plan truncated)".toList
      heq.symm
    exact absurd hdash (by decide)

theorem follows_keeps_iff (hcarriable : Carriable plan) (hlisted : Listed plan)
    (hclean : Clean plan) (hfits : Fits plan) {s : Text} {passes : List Pass}
    (hs : extractPlanBlock s = some plan) (h : Follows parse s passes) :
    (∀ p ∈ passes, Keeps parse plan (p.output parse)) ↔
      ∀ p ∈ passes, p.newerBlock = none ∨ p.newerBlock = some plan := by
  induction h with
  | nil => simp
  | @cons s p ps hcarrier hnone hrest ih =>
    have hfound : latestPlanSnapshot parse p.messages = some (p.newerBlock.getD plan) :=
      Pass.snapshot hnone (hcarrier ▸ hs)
    have hkept : clipPlan plan (planBudget plan) = plan :=
      (clipPlan_eq_self_iff hlisted).mpr (fits_iff.mp hfits)
    have hstep : Keeps parse plan (p.output parse) ↔
        p.newerBlock = none ∨ p.newerBlock = some plan := by
      cases hblock : p.newerBlock with rw [hblock] at hfound
      | none =>
        exact iff_of_true ((keeps_compactMessages_iff hfound hcarriable hclean).mpr hkept)
          (.inl rfl)
      | some found =>
        obtain ⟨m, -, hm⟩ := exists_of_findSome?_eq_some hblock
        rw [Pass.output, keeps_compactMessages_iff hfound (carriable_of_extractPlanBlock hm) hclean]
        by_cases heq : found = plan
        · exact iff_of_true (heq ▸ hkept) (.inr (heq ▸ rfl))
        · exact iff_of_false (clipPlan_ne hlisted heq) (by simpa using heq)
    rw [forall_mem_cons, forall_mem_cons, ← hstep]
    refine and_congr_right fun hkeeps => ih ?_
    rw [Keeps, snapshot_summaryRow] at hkeeps
    exact hkeeps.1

/-- **Which passes keep the plan.** All the summaries hold one block with the plan exactly if the
plan fits the bytes of its estimated tokens, and the rows behind a summary hold no block, or the
newest is the plan again. -/
theorem plan_carried_iff {messages : List Message} {budget : ℕ} {passes : List Pass} {args : Json}
    (hrender : renderPlanChecklist parse args = some plan) (hclean : Clean plan)
    (hnewest : latestPlanSnapshot parse messages = some plan)
    (hpasses : Follows parse (compactMessages parse messages budget) passes) :
    (∀ s ∈ compactMessages parse messages budget :: passes.map (·.output parse),
        Keeps parse plan s) ↔
      Fits plan ∧ ∀ p ∈ passes, p.newerBlock = none ∨ p.newerBlock = some plan := by
  obtain ⟨hne, htrimmed, hlisted⟩ := rendered_spec hrender
  have hcarriable : Carriable plan := ⟨hne, htrimmed, hclean.2⟩
  rw [forall_mem_cons, List.forall_mem_map, keeps_compactMessages_iff hnewest hcarriable hclean,
    clipPlan_eq_self_iff hlisted, ← fits_iff]
  refine and_congr_right fun hfits => ?_
  have hkeeps : Keeps parse plan (compactMessages parse messages budget) :=
    (keeps_compactMessages_iff hnewest hcarriable hclean).mpr
      ((clipPlan_eq_self_iff hlisted).mpr (fits_iff.mp hfits))
  rw [Keeps, snapshot_summaryRow] at hkeeps
  exact follows_keeps_iff hcarriable hlisted hclean hfits hkeeps.1 hpasses

def parsesNothing : String → Option Json := fun _ => none

/-- The arguments of a call that declares a plan of some steps. -/
def planArgs (steps : List String) : Json :=
  .obj [("plan", .arr (steps.map fun step => .obj [("step", .str step)]))]

def planRow (steps : List String) : Message :=
  ⟨.assistant, "", [], some [⟨"c1", "update_plan", planArgs steps⟩], none, none, none,
    none, 0, none, none⟩

/-- A pass on the summary of a conversation and nothing else. -/
def barePass (messages : List Message) : Pass :=
  ⟨[], summaryRow (compactMessages parsesNothing messages 1024), [], 1024⟩

/-- A plan of one short step is kept by a further pass. -/
theorem plan_carried_iff_shortStep :
    Keeps parsesNothing "- [ ] port".toList
      ((barePass [planRow ["port"]]).output parsesNothing) := by
  have hfollows : Follows parsesNothing (compactMessages parsesNothing [planRow ["port"]] 1024)
      [barePass [planRow ["port"]]] :=
    .cons (by simp [barePass, summaryRow]) (by simp [barePass, summaryRow, Message.PlansNothing])
      .nil
  have hall := (@plan_carried_iff "- [ ] port".toList parsesNothing [planRow ["port"]] 1024 _
    (planArgs ["port"]) (by decide) ⟨by decide +kernel, by decide⟩
    (by decide) hfollows).mpr ⟨by decide, by simp [Pass.newerBlock, barePass]⟩
  exact hall _ (by simp)

/-- Forty characters that take three bytes each. -/
def wideTitle : Text := List.replicate 40 '步'

/-- A plan of ten steps with that title, as it is rendered. -/
def widePlan : Text :=
  joinLines (List.replicate 10 ('-' :: ' ' :: '[' :: ' ' :: ']' :: ' ' :: wideTitle))

def wideSteps : List String := List.replicate 10 (String.ofList wideTitle)

theorem renderPlanChecklist_planArgs (parse : String → Option Json) (steps : List String) :
    renderPlanChecklist parse (planArgs steps) =
      if trimEnd ((normalizePlan (planArgs steps)).flatMap planLine) = [] then none
      else some (trimEnd ((normalizePlan (planArgs steps)).flatMap planLine)) := rfl

theorem wideSteps_rendered :
    renderPlanChecklist parsesNothing (planArgs wideSteps) = some widePlan := by
  have hitem : planItem (.obj [("step", .str (String.ofList wideTitle))]) =
      (String.ofList wideTitle, .pending) := rfl
  have hline : planLine (String.ofList wideTitle, .pending) =
      '-' :: ' ' :: '[' :: ' ' :: ']' :: ' ' :: wideTitle ++ ['\n'] := by
    unfold planLine
    decide +kernel
  have hitems : normalizePlan (planArgs wideSteps) =
      List.replicate 10 (String.ofList wideTitle, .pending) := by
    simp [normalizePlan, planArgs, wideSteps, Json.get?, Json.asArray?, hitem]
  have hbody :
      trimEnd ((List.replicate 10 (String.ofList wideTitle, PlanItemStatus.pending)).flatMap
      planLine) = widePlan := by
    decide +kernel
  rw [← hitems] at hbody
  rw [renderPlanChecklist_planArgs, hbody, if_neg (by decide)]

/-- A plan of 1269 bytes is cut by the first pass: its estimate of 283 tokens stands for 1228. -/
theorem widePlan_cut :
    latestPlanSnapshot parsesNothing [planRow wideSteps] = some widePlan ∧ utf8Len widePlan = 1269 ∧
      Clean widePlan ∧
      latestPlanSnapshot parsesNothing
        [summaryRow (compactMessages parsesNothing [planRow wideSteps] 1024)] ≠ some widePlan := by
  have hnewest : latestPlanSnapshot parsesNothing [planRow wideSteps] = some widePlan := by
    simp [latestPlanSnapshot, planRow, planOf, planOfCall, logicalCall, wideSteps_rendered]
  have hclean : Clean widePlan := ⟨by decide +kernel, by decide +kernel⟩
  obtain ⟨hne, htrimmed, hlisted⟩ := rendered_spec wideSteps_rendered
  obtain ⟨body, hbody⟩ :=
    @compactMessages_eq widePlan parsesNothing [planRow wideSteps] 1024 hnewest
  refine ⟨hnewest, by decide +kernel, hclean, ?_⟩
  rw [snapshot_summaryRow, hbody, extractPlanBlock_prepend ⟨hne, htrimmed, hclean.2⟩]
  intro heq
  have hfits := (clipPlan_eq_self_iff hlisted).mp (some.inj heq)
  exact absurd hfits (by decide +kernel)

end Octos.Agent
