import Octos.Base.Text

/-!
# Markdown as HTML

`octos-bus/src/markdown_html.rs`: the lines of a message are read block by block, and each block
pushes its HTML. Text is escaped before its marks are looked for. A line of a fenced block loses as
many bytes as its fence is indented, which panics inside a character. A fence takes the lines behind
it before it is known whether it is closed.

## Main results

* `fence_keeps_lines_iff`: when the lines of every fence are in the output
-/

namespace Octos.Bus

open List Option

/-! ## Escaping -/

/-- `str::replace`, behind some characters that a match has taken. -/
def replaceAll (pat new : Text) : ℕ → Text → Text
  | _, [] => []
  | k + 1, _ :: cs => replaceAll pat new k cs
  | 0, c :: cs =>
    if pat.isPrefixOf (c :: cs) then new ++ replaceAll pat new (pat.length - 1) cs
    else c :: replaceAll pat new 0 cs

def escapeChar : Char → Text
  | '&' => "&amp;".toList
  | '<' => "&lt;".toList
  | '>' => "&gt;".toList
  | '"' => "&quot;".toList
  | c => [c]

def htmlEscape (s : Text) : Text :=
  (["<br>", "<br/>", "<br />"].foldl (fun s tag => replaceAll tag.toList ['\n'] 0 s) s).flatMap
    escapeChar

/-! ## Inline marks -/

def element (tag : String) (attr content : Text) : Text :=
  '<' :: tag.toList ++ attr ++ '>' :: content ++ "</".toList ++ tag.toList ++ ['>']

/-- The content before a delimiter: one character, whatever it is, and those up to the delimiter. -/
def extractDelimited (d : Char) : Text → Option Text
  | [] => none
  | a :: cs =>
    let rest := cs.takeWhile fun c => c ≠ d ∧ c ≠ '\n'
    if a ≠ '\n' ∧ cs[rest.length]? = some d then some (a :: rest) else none

/-- The content before a pair of delimiters. -/
def extractDoubleDelimited (d : Char) : Text → Option Text
  | a :: b :: cs =>
    if a = d ∧ b = d then some []
    else if a = '\n' then none
    else (extractDoubleDelimited d (b :: cs)).map (a :: ·)
  | _ => none

/-- The text and the address of a link, behind its bracket. -/
def extractLink (cs : Text) : Option (Text × Text) :=
  let text := cs.takeWhile fun c => c ≠ ']' ∧ c ≠ '\n'
  match cs.drop text.length with
  | ']' :: '(' :: rest =>
    let url := rest.takeWhile fun c => c ≠ ')' ∧ c ≠ '\n'
    if rest[url.length]? = some ')' then some (text, url) else none
  | _ => none

section

variable (c : Char) (cs : Text)

def singleMark (d : Char) (tag : String) : Option (Text × ℕ) :=
  if c = d then (extractDelimited d cs).map fun s => (element tag [] s, s.length + 1) else none

def doubleMark (d : Char) (tag : String) : Option (Text × ℕ) :=
  if c = d ∧ cs.head? = some d then
    ((extractDoubleDelimited d cs.tail).filter (· ≠ [])).map fun s =>
    (element tag [] s, s.length + 3)
  else none

/-- The mark that begins with a character, and how many of those behind it it takes. -/
def inlineMark : Option (Text × ℕ) :=
  singleMark c cs '`' "code" <|> doubleMark c cs '*' "b" <|> doubleMark c cs '_' "b" <|>
    doubleMark c cs '~' "s" <|>
    (if cs.head? ≠ some c then singleMark c cs '*' "i" <|> singleMark c cs '_' "i" else none) <|>
    if c = '[' then
      (extractLink cs).map fun l =>
        (element "a" (" href=\"".toList ++ l.2 ++ ['"']) l.1, l.1.length + l.2.length + 3)
    else none

end

/-- Text that is escaped, behind some characters that a mark has taken. -/
def convertInline : ℕ → Text → Text
  | _, [] => []
  | k + 1, _ :: cs => convertInline k cs
  | 0, c :: cs =>
    match inlineMark c cs with
    | some (html, k) => html ++ convertInline k cs
    | none => c :: convertInline 0 cs

def inline (s : Text) : Text := convertInline 0 (htmlEscape s)

/-! ## Tables -/

def isTableLine (line : Text) : Bool := (trimStart line).head? = some '|'

def isTableSeparator (line : Text) : Bool :=
  let t := trim line
  t.head? = some '|' ∧ t.all ['|', '-', ':', ' '].contains ∧ '-' ∈ t

/-- A row without a bar at its end keeps the one at its beginning. -/
def parseTableCells (line : Text) : List Text :=
  let t := trim line
  let inner := if t.head? = some '|' then t.tail else t
  ((if inner.getLast? = some '|' then inner.dropLast else t).splitOn '|').map trim

def renderTable (rows : List Text) : Text :=
  let joined (cells : List Text) : Text := " | ".toList.intercalate cells
  match (rows.filter (!isTableSeparator ·)).map parseTableCells with
  | [] => []
  | header :: data =>
    if data ≠ [] ∧ header.length = 2 then
      data.flatMap fun row => element "b" [] (inline (row.headD [])) ++ ": ".toList ++
        inline (row.getD 1 []) ++ ['\n']
    else
      element "b" [] (htmlEscape (joined header)) ++ '\n' ::
        data.flatMap fun row => inline (joined row) ++ ['\n']

/-! ## Blocks -/

def isFence (line : Text) : Bool := "```".toList.isPrefixOf (trimStart line)

def indentOf (line : Text) : ℕ := utf8Len line - utf8Len (trimStart line)

/-- A line of a fenced block without the indentation of the fence. The cut panics inside a
character. -/
def dedent (indent : ℕ) (line : Text) : Option Text :=
  if indent < utf8Len line then
    (dropBytes indent line).map fun rest =>
      if (takeBytes indent line).all fun c => c = ' ' ∨ c = '\t' then rest else line
  else some line

def pushCode (indent : ℕ) (code line : Text) : Option Text :=
  (dedent indent line).map fun rest => (if code.isEmpty then [] else code ++ ['\n']) ++ rest

def isHorizontalRule (line : Text) : Bool :=
  match trim line with
  | [] => false
  | c :: t => 3 ≤ utf8Len (c :: t) ∧ c ∈ ['-', '*', '_'] ∧ t.all fun b => b = c ∨ b = ' '

def stripHeading (line : Text) : Option Text :=
  let t := trimStart line
  let rest := t.dropWhile (· = '#')
  if t.head? ≠ some '#' ∨ rest.length + 6 < t.length then none
  else match rest with
    | [] => some []
    | c :: s => if c = ' ' then some (trimEnd s) else none

def isQuote (line : Text) : Bool :=
  "> ".toList.isPrefixOf (trimStart line) ∨ trimStart line = ['>']

def quoteText (line : Text) : Text :=
  (trimStart line).drop (if "> ".toList.isPrefixOf (trimStart line) then 2 else 1)

/-- A fence is closed if another one follows. -/
inductive Block
  | fence (line : Text) (body : List Text) (closed : Bool)
  | rule
  | table (rows : List Text)
  | heading (content : Text)
  | quote (content : List Text)
  | bullet (content : Text)
  | item (number content : Text)
  | regular (line : Text)
deriving DecidableEq

/-- The block that begins with a line, and how many of the lines behind it it takes. -/
def nextBlock (line : Text) (ls : List Text) : Block × ℕ :=
  let t := trimStart line
  let digits := t.takeWhile Char.isDigit
  if isFence line then
    let body := ls.takeWhile (!isFence ·)
    (.fence line body (body.length < ls.length), body.length + 1)
  else if isHorizontalRule line then (.rule, 0)
  else if isTableLine line then
    (.table (line :: ls.takeWhile isTableLine), (ls.takeWhile isTableLine).length)
  else if let some content := stripHeading line then (.heading content, 0)
  else if isQuote line then
    (.quote ((line :: ls.takeWhile isQuote).map quoteText), (ls.takeWhile isQuote).length)
  else if "- ".toList.isPrefixOf t ∨ "* ".toList.isPrefixOf t then (.bullet (t.drop 2), 0)
  else if digits ≠ [] ∧ ". ".toList.isPrefixOf (t.drop digits.length) then
    (.item digits (t.drop (digits.length + 2)), 0)
  else (.regular line, 0)

/-- The blocks of some lines, behind those that a block has taken. -/
def blocks : ℕ → List Text → List Block
  | _, [] => []
  | k + 1, _ :: ls => blocks k ls
  | 0, l :: ls => (nextBlock l ls).1 :: blocks (nextBlock l ls).2 ls

def language (line : Text) : Text := trim ((trimStart line).dropWhile (· = '`'))

def render : Block → Option Text
  | .fence line body closed =>
    -- the lines of a fence that is not closed are read, but not pushed
    (body.foldlM (pushCode (indentOf line)) []).map fun code =>
      (if closed then
        element "pre" [] (if (language line).isEmpty then htmlEscape code
          else element "code" (" class=\"language-".toList ++ htmlEscape (language line) ++ ['"'])
            (htmlEscape code))
      else htmlEscape line) ++ ['\n']
  | .rule => some "———\n".toList
  | .table rows => some (renderTable rows)
  | .heading content => some (element "b" [] (inline content) ++ ['\n'])
  | .quote content => some (element "blockquote" [] (inline (joinLines content)) ++ ['\n'])
  | .bullet content => some ("• ".toList ++ inline content ++ ['\n'])
  | .item number content => some (number ++ ". ".toList ++ inline content ++ ['\n'])
  | .regular line => some (inline line ++ ['\n'])

def trimNewline (html : Text) : Text := if html.getLast? = some '\n' then html.dropLast else html

/-- What a block pushes, if it does. -/
def pushed (b : Block) : Text := (render b).getD []

def markdownToTelegramHtml (input : Text) : Option Text :=
  let bs := blocks 0 (lines input)
  if bs.all fun b => (render b).isSome then some (trimNewline (bs.flatMap pushed)) else none

/-! ## The lines of a fence -/

variable {pat new a b code out : Text} {c : Char} {k indent : ℕ} {ls : List Text}

theorem replaceAll_append_cons (hc : c ∉ pat) (hpat : pat ≠ []) (hk : k ≤ a.length) :
    replaceAll pat new k (a ++ c :: b) = replaceAll pat new k a ++ c :: replaceAll pat new 0 b := by
  induction a generalizing k with
  | nil =>
    obtain rfl : k = 0 := by simpa using hk
    have hhead := isPrefixOf_append_cons hc [] b
    rw [isPrefixOf_nil hpat, nil_append] at hhead
    simp [replaceAll, hhead]
  | cons x a ih =>
    cases k with
    | succ k => exact ih (Nat.le_of_succ_le_succ hk)
    | zero =>
      have hhead := isPrefixOf_append_cons hc (x :: a) b
      rw [cons_append] at hhead ⊢
      rw [replaceAll, replaceAll, hhead]
      split_ifs with hpre
      · have hlen := isPrefixOf_iff_prefix.mp hpre |>.length_le
        rw [ih (by simpa [Nat.sub_le_iff_le_add] using hlen), append_assoc]
      · rw [ih (Nat.zero_le _), cons_append]

/-- No break that is replaced goes over the end of a line. -/
theorem htmlEscape_append_newline (a b : Text) :
    htmlEscape (a ++ '\n' :: b) = htmlEscape a ++ '\n' :: htmlEscape b := by
  simp only [htmlEscape, foldl_cons, foldl_nil]
  iterate 3 rw [replaceAll_append_cons (by decide) (by decide) (Nat.zero_le _)]
  rw [flatMap_append, flatMap_cons]
  rfl

/-- Some texts come one behind the other in a text. -/
def InSequence : List Text → Text → Prop
  | [], _ => True
  | l :: ls, s => ∃ before rest, s = before ++ l ++ rest ∧ InSequence ls rest

theorem InSequence.append (h : InSequence ls b) (a c : Text) : InSequence ls (a ++ b ++ c) := by
  induction ls generalizing a b with
  | nil => trivial
  | cons l ls ih =>
    obtain ⟨before, rest, rfl, hrest⟩ := h
    exact ⟨a ++ before, rest ++ c, by simp, ih hrest []⟩

theorem InSequence.element (h : InSequence ls b) (tag : String) (attr : Text) :
    InSequence ls (element tag attr b) := by
  simpa [Bus.element] using
    h.append ('<' :: tag.toList ++ attr ++ ['>']) ("</".toList ++ tag.toList ++ ['>'])

/-- A line of a fenced block as it is to be read in the output. -/
def shown (indent : ℕ) (line : Text) : Text := htmlEscape ((dedent indent line).getD line)

theorem inSequence_foldlM (h : ls.foldlM (pushCode indent) code = some out) :
    ∃ rest, htmlEscape out = htmlEscape code ++ rest ∧ InSequence (ls.map (shown indent)) rest := by
  induction ls generalizing code with
  | nil =>
    cases h
    exact ⟨[], by simp, trivial⟩
  | cons l ls ih =>
    obtain ⟨code', hpush, hbody⟩ := bind_eq_some_iff.mp h
    obtain ⟨line, hline, rfl⟩ := map_eq_some_iff.mp hpush
    obtain ⟨rest, hout, hrest⟩ := ih hbody
    have hshown : shown indent l = htmlEscape line := by simp [shown, hline]
    -- a newline goes before a line only if there is code already
    cases code with
    | nil => exact ⟨htmlEscape line ++ rest, hout, [], rest, by simp [hshown], hrest⟩
    | cons x code =>
      refine ⟨'\n' :: htmlEscape line ++ rest, ?_, ['\n'], rest, by simp [hshown], hrest⟩
      rw [hout, isEmpty_cons, if_neg (by decide), append_assoc, singleton_append,
        htmlEscape_append_newline]
      simp

theorem inSequence_pushed_iff {line : Text} {closed : Bool}
    (h : (render (.fence line ls closed)).isSome) :
    InSequence (ls.map (shown (indentOf line))) (pushed (.fence line ls closed)).dropLast ↔
      closed = false → InSequence (ls.map (shown (indentOf line))) (htmlEscape line) := by
  obtain ⟨html, hhtml⟩ := isSome_iff_exists.mp h
  obtain ⟨code, hcode, rfl⟩ := map_eq_some_iff.mp hhtml
  rw [pushed, hhtml, getD_some, dropLast_concat]
  cases closed with
  | false => simp
  | true =>
    obtain ⟨rest, hrest, hin⟩ := inSequence_foldlM hcode
    obtain rfl : htmlEscape code = rest := hrest
    refine iff_of_true ?_ nofun
    rw [if_pos rfl]
    split_ifs
    · exact hin.element ..
    · exact (hin.element ..).element ..

/-- The lines of the fences are kept if every open fence has nothing behind it. -/
theorem fence_keeps_lines_of_closed {input : Text} (h : markdownToTelegramHtml input = some out)
    (hopen : ∀ line body, .fence line body false ∈ blocks 0 (lines input) → body = [])
    {line : Text} {body : List Text} {closed : Bool}
    (hmem : .fence line body closed ∈ blocks 0 (lines input)) :
    InSequence (body.map (shown (indentOf line))) (pushed (.fence line body closed)).dropLast := by
  obtain ⟨hsome, rfl⟩ := by simpa [markdownToTelegramHtml] using h
  rw [inSequence_pushed_iff (hsome _ hmem)]
  rintro rfl
  rw [hopen line body hmem]
  trivial

/-- **The lines of the fences** are in what these push, before its newline, exactly if those of
every fence that is not closed can be read in its own line. -/
theorem fence_keeps_lines_iff (input : Text) (h : markdownToTelegramHtml input = some out) :
    out = trimNewline ((blocks 0 (lines input)).flatMap pushed) ∧
    ((∀ line body closed, .fence line body closed ∈ blocks 0 (lines input) →
        InSequence (body.map (shown (indentOf line))) (pushed (.fence line body closed)).dropLast) ↔
      ∀ line body, .fence line body false ∈ blocks 0 (lines input) →
        InSequence (body.map (shown (indentOf line))) (htmlEscape line)) := by
  obtain ⟨hsome, rfl⟩ := by simpa [markdownToTelegramHtml] using h
  refine ⟨rfl, fun hkept line body hmem => ?_, fun hopen line body closed hmem => ?_⟩
  · exact (inSequence_pushed_iff (hsome _ hmem)).mp (hkept line body false hmem) rfl
  · rw [inSequence_pushed_iff (hsome _ hmem)]
    rintro rfl
    exact hopen line body hmem

/-- Two lines of an indented fence are kept; the fence behind it is open and has no lines. -/
theorem fence_keeps_lines_iff_indented :
    InSequence [" a &lt; b".toList, "c".toList]
      (pushed (.fence "  ```rust".toList ["   a < b".toList, "  c".toList] true)).dropLast := by
  have h : markdownToTelegramHtml "  ```rust\n   a < b\n  c\n  ```\n```".toList =
      some "<pre><code class=\"language-rust\"> a &lt; b\nc</code></pre>\n```".toList := by
    decide +kernel
  have hblocks : blocks 0 (lines "  ```rust\n   a < b\n  c\n  ```\n```".toList) =
      [.fence "  ```rust".toList ["   a < b".toList, "  c".toList] true,
        .fence "```".toList [] false] := by
    decide +kernel
  have hshown : ["   a < b".toList, "  c".toList].map (shown (indentOf "  ```rust".toList)) =
      [" a &lt; b".toList, "c".toList] := by
    decide +kernel
  rw [← hshown]
  refine (fence_keeps_lines_iff _ h).2.mpr (fun line body hmem => ?_) _ _ _
    (hblocks ▸ mem_cons_self)
  rw [hblocks] at hmem
  obtain ⟨-, rfl⟩ : line = "```".toList ∧ body = [] := by simpa using hmem
  trivial

/-- A line behind a fence that is not closed is lost. -/
theorem open_fence_loses_line :
    blocks 0 (lines "```\nlost".toList) = [.fence "```".toList ["lost".toList] false] ∧
      markdownToTelegramHtml "```\nlost".toList = some "```".toList ∧
      ¬ InSequence ["lost".toList] "```".toList := by
  refine ⟨by decide, by decide, ?_⟩
  rintro ⟨before, rest, h, -⟩
  have hmem : 'l' ∈ before ++ "lost".toList ++ rest := by simp
  rw [← h] at hmem
  exact absurd hmem (by decide)

end Octos.Bus
