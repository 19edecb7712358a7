import Octos.Base.Substrings
import Octos.Tools.Hunks

/-!
# The replacer chain

`edit_file` looks for the text to replace with a chain of matchers, from a plain search to more and
more tolerant ones. The first matcher that finds anything decides: one match is replaced, and more
than one is an error. Positions are those of characters; where the source counts bytes (the
indentation of a line, the guard against matches that are too large), the bytes of the characters
are counted.
-/

namespace Octos.Tools

/-! ## Ranges and lines -/

structure Span where
  start : ℕ
  stop : ℕ

variable (content : Text)

def Span.text (s : Span) : Text := (content.drop s.start).take (s.stop - s.start)

/-- `str::split` at line feeds: a text that ends with one has an empty last piece. -/
def splitNewlines : Text → List Text
  | [] => [[]]
  | c :: cs =>
    if c = '\n' then [] :: splitNewlines cs
    else match splitNewlines cs with
      | [] => [[c]]
      | l :: ls => (c :: l) :: ls

/-- The ranges of some pieces, with one character between them. -/
def indexFrom (start : ℕ) : List Text → List Span
  | [] => []
  | piece :: pieces => ⟨start, start + piece.length⟩ :: indexFrom (start + piece.length + 1) pieces

def indexLines : List Span := indexFrom 0 (splitNewlines content)

/-- The lines of a needle without the empty one after a final line feed, and whether
there was one. -/
def splitFind (find : Text) : List Text × Bool :=
  if endsWithNewline find then ((splitNewlines find).dropLast, true)
    else (splitNewlines find, false)

/-- The range of some lines, with the line feed after them if that is asked for. -/
def windowRange (spans : List Span) (i n : ℕ) (consume : Bool) : Span :=
  let stop := (spans.getD (i + n - 1) ⟨0, 0⟩).stop
  ⟨(spans.getD i ⟨0, 0⟩).start, if consume && content[stop]? == some '\n' then stop + 1 else stop⟩

def windowTexts (spans : List Span) (i n : ℕ) : List Text :=
  ((spans.drop i).take n).map (Span.text content)

/-! ## Windows of lines -/

/-- A matcher of windows: how many lines, which windows it accepts, and whether the line feed after
the window belongs to the match. -/
structure LinePattern where
  count : ℕ
  accepts : List Text → Bool
  consume : Bool

/-- The start lines of the windows that a matcher accepts. -/
def LinePattern.windows (pattern : LinePattern) (content : Text) (spans : List Span) : List ℕ :=
  if pattern.count = 0 ∨ spans.length < pattern.count then []
  else (List.range (spans.length - pattern.count + 1)).filter fun i =>
    pattern.accepts (windowTexts content spans i pattern.count)

/-- `window_scan`: every window that a matcher accepts. -/
def LinePattern.spans (pattern : LinePattern) (content : Text) (spans : List Span) : List Span :=
  (pattern.windows content spans).map fun i =>
    windowRange content spans i pattern.count pattern.consume

/-- A matcher that compares line by line. -/
def pairwisePattern (find : Text) (eq : Text → Text → Bool) : LinePattern where
  count := (splitFind find).1.length
  accepts window := (window.zip (splitFind find).1).all fun p => eq p.1 p.2
  consume := (splitFind find).2

def lineTrimmed (find : Text) : LinePattern := pairwisePattern find fun a b => trim a == trim b

def splitWhitespace : Text → List Text
  | [] => []
  | c :: cs =>
    if isSpace c then splitWhitespace cs
    else match cs with
      | [] => [[c]]
      | c' :: _ =>
        if isSpace c' then [c] :: splitWhitespace cs
        else match splitWhitespace cs with
          | [] => [[c]]
          | w :: ws => (c :: w) :: ws

def normalizeWhitespace (s : Text) : Text := [' '].intercalate (splitWhitespace s)

def whitespaceNormalized (find : Text) : LinePattern :=
  pairwisePattern find fun a b => normalizeWhitespace a == normalizeWhitespace b

def isBlank (s : Text) : Bool := (trim s).isEmpty

def leadingWsLen (s : Text) : ℕ := utf8Len (s.takeWhile isSpace)

def stripIndent : ℕ → Text → Text
  | _, [] => []
  | upto, c :: cs =>
    if isSpace c && c.utf8Size ≤ upto then stripIndent (upto - c.utf8Size) cs else c :: cs

def commonIndent (ls : List Text) : ℕ :=
  ((ls.filter fun l => !isBlank l).map leadingWsLen).min?.getD 0

/-- The needle without the blank lines around it. -/
def trimBlankLines (ls : List Text) : List Text := (ls.dropWhile isBlank).rdropWhile isBlank

/-- The needle without the blank lines around it, and lines compared without
the indentation that is common to all of them. -/
def indentationFlexible (find : Text) : LinePattern where
  count := (trimBlankLines (splitFind find).1).length
  accepts window :=
    let findLines := trimBlankLines (splitFind find).1
    (window.zip findLines).all fun p =>
      (isBlank p.2 && isBlank p.1) ||
        stripIndent (commonIndent window) p.1 == stripIndent (commonIndent findLines) p.2
  -- The line feed is that of the needle only if no blank line was cut at its end.
  consume := (splitFind find).2 && !((splitFind find).1.dropWhile isBlank).getLast?.any isBlank

/-! ## Searches for a substring -/

variable (content find : Text)

/-- `exact`: the occurrences of a needle, from the left and without overlap. -/
def exactMatches : List Span :=
  (matchIndices find content).map fun i => ⟨i, i + find.length⟩

/-- The characters that stand for themselves after a backslash: the backslash and the two quotes. -/
def isQuoted (c : Char) : Bool := c == '\\' || c.toNat == 0x27 || c.toNat == 0x22

/-- The escape sequences of a needle replaced, and unknown ones kept. -/
def unescapeFind : Text → Text
  | '\\' :: c :: cs =>
    if c = 'n' then '\n' :: unescapeFind cs
    else if c = 't' then '\t' :: unescapeFind cs
    else if c = 'r' then '\r' :: unescapeFind cs
    else if isQuoted c then c :: unescapeFind cs
    else '\\' :: c :: unescapeFind cs
  | c :: cs => c :: unescapeFind cs
  | [] => []

/-- `escape_normalized`: the unescaped needle, if it is another one. -/
def escapeNormalizedMatches : List Span :=
  if unescapeFind find = find then [] else exactMatches content (unescapeFind find)

/-! ## Blocks between two anchors -/

/-- The next row of the edit distances: from the one before, with the entry to the left. -/
def levenshteinRow (c : Char) (left : ℕ) : Text → List ℕ → List ℕ
  | b :: bs, diag :: up :: prev =>
    let cost := if c = b then 0 else 1
    let entry := min (min (up + 1) (left + 1)) (diag + cost)
    entry :: levenshteinRow c entry bs (up :: prev)
  | _, _ => []

def levenshtein (a b : Text) : ℕ :=
  if a.isEmpty then b.length
  else if b.isEmpty then a.length
  else
    let rows := a.zipIdx.foldl (fun prev c => (c.2 + 1) :: levenshteinRow c.1 (c.2 + 1) b prev)
      (List.range (b.length + 1))
    rows.getLastD 0

/-- The share of two texts that is equal. -/
def similarity (a b : Text) : Float :=
  let maxLen := max a.length b.length
  if maxLen = 0 then 1.0 else 1.0 - Float.ofNat (levenshtein a b) / Float.ofNat maxLen

/-- The average over the lines of two blocks, a line without a partner counting
as different. -/
def blockSimilarity (middleFind middleContent : List Text) : Float :=
  let total := max middleFind.length middleContent.length
  if total = 0 then 1.0
  else
    ((middleFind.zip middleContent).map fun p => similarity p.1 p.2).foldl (· + ·) 0 /
      Float.ofNat total

/-- The least similarity of a block that is accepted. -/
def blockAnchorSimilarityThreshold : Float := 0.65

/-- One line that may close a block: the last anchor, with a score over the threshold and better
than the best so far. -/
def closingStep (texts middleFind : List Text) (lastAnchor : Text) (i : ℕ)
    (best : Option (Float × ℕ)) (j : ℕ) : Option (Float × ℕ) :=
  if trim (texts.getD j []) ≠ lastAnchor then best
  else
    let score := blockSimilarity middleFind (((texts.drop (i + 1)).take (j - (i + 1))).map trim)
    if blockAnchorSimilarityThreshold ≤ score ∧ best.all (fun b => b.1 < score) then some (score, j)
    else best

/-- The best line that closes a block, among those that are not too far. -/
def bestClosing (texts middleFind : List Text) (lastAnchor : Text) (maxMiddle i : ℕ) :
    Option (Float × ℕ) :=
  ((List.range' (i + 1) (texts.length - (i + 1))).takeWhile fun j => j - i - 1 ≤ maxMiddle).foldl
    (closingStep texts middleFind lastAnchor i) none

/-- `block_anchor`: the blocks between lines that are the first and the last of the needle, with
similar lines between them. -/
def blockAnchorMatches (spans : List Span) (find : Text) : List Span :=
  let findLines := (splitFind find).1
  let firstAnchor := trim (findLines.headD [])
  let lastAnchor := trim (findLines.getLastD [])
  if findLines.length < 3 ∨ firstAnchor = [] ∨ lastAnchor = [] then []
  else
    let texts := spans.map (Span.text content)
    let middleFind := (findLines.drop 1).dropLast.map trim
    let maxMiddle :=
      (Float.ofNat middleFind.length / blockAnchorSimilarityThreshold).toUInt64.toNat
    (List.range spans.length).filterMap fun i =>
      if trim (texts.getD i []) ≠ firstAnchor then none
      else (bestClosing texts middleFind lastAnchor maxMiddle i).map fun best =>
        windowRange content spans i (best.2 - i + 1) (splitFind find).2

/-! ## The chain -/

/-- The stages, from strict to tolerant. -/
inductive Replacer
  | exact
  | lineTrimmed
  | whitespaceNormalized
  | indentationFlexible
  | escapeNormalized
  | blockAnchor
deriving DecidableEq

def Replacer.name : Replacer → String
  | exact => "exact"
  | lineTrimmed => "line_trimmed"
  | whitespaceNormalized => "whitespace_normalized"
  | indentationFlexible => "indentation_flexible"
  | escapeNormalized => "escape_normalized"
  | blockAnchor => "block_anchor"

/-- The order in which they are tried. -/
def Replacer.chain : List Replacer :=
  [exact, lineTrimmed, whitespaceNormalized, indentationFlexible, escapeNormalized, blockAnchor]

inductive ChainOutcome
  | noMatch
  | ambiguous (count : ℕ) (replacer : Replacer)
  | found (range : Span) (replacer : Replacer)

def stageMatches : Replacer → List Span
  | .exact => exactMatches content find
  | .lineTrimmed => (lineTrimmed find).spans content (indexLines content)
  | .whitespaceNormalized => (whitespaceNormalized find).spans content (indexLines content)
  | .indentationFlexible => (indentationFlexible find).spans content (indexLines content)
  | .escapeNormalized => escapeNormalizedMatches content find
  | .blockAnchor => blockAnchorMatches content (indexLines content) find

/-- The first stage that has any match decides. -/
def runChain (content find : Text) : List Replacer → ChainOutcome
  | [] => .noMatch
  | stage :: stages =>
    match stageMatches content find stage with
    | [] => runChain content find stages
    | [range] => .found range stage
    | m :: m' :: ms => .ambiguous (m :: m' :: ms).length stage

def findReplacement : ChainOutcome :=
  if find.isEmpty then .noMatch else runChain content find Replacer.chain

/-! ## One edit -/

/-- A match is far larger than the needle, in lines or in bytes. -/
def isDisproportionateMatch (matched find : Text) : Bool :=
  let findLines := max (lines find).length 1
  let lineCap := max (findLines + 3) (findLines * 2)
  lineCap < (lines matched).length || utf8Len find * 4 < utf8Len matched

/-- Why an edit was not made, with what the message shows. -/
inductive EditError
  | emptyOld
  | ambiguous (count : ℕ) (replacer : Replacer)
  | notFound (old : Text)
  | disproportionate (replacer : Replacer) (matchedLines matchedBytes needleLines needleBytes : ℕ)

/-- What a stage makes of the strings of a call: the one with escapes reads both without them. -/
def Replacer.interpret (s : Text) : Replacer → Text
  | escapeNormalized => unescapeFind s
  | _ => s

/-- The text with one match replaced, and the stage that has found it. -/
def stageReplacement (content old new : Text) : Except EditError (Text × Replacer) :=
  if old.isEmpty then .error .emptyOld
  else
    match findReplacement content old with
    | .ambiguous count replacer => .error (.ambiguous count replacer)
    | .noMatch => .error (.notFound old)
    | .found range replacer =>
      let guardNeedle := replacer.interpret old
      let matched := range.text content
      if isDisproportionateMatch matched guardNeedle then
        .error (.disproportionate replacer (lines matched).length (utf8Len matched)
          (lines guardNeedle).length (utf8Len guardNeedle))
      else
        .ok (content.take range.start ++ replacer.interpret new ++
          content.drop range.stop, replacer)

end Octos.Tools
