import MyGpt.GatedTurn
import Mathlib.Data.List.Sort
import Mathlib.Data.List.SplitBy
/-!
# AnswerClaims — cutting an answer into claims, and claims out of an answer

`rag/claims.py`: an answer is split line by line, outside fenced code, into sentences; table rows and list items stay
whole.  Every claim carries its place in the answer, and `remove_claim_spans` cuts the dropped ones out by place.
-/
namespace MyGpt
namespace Rag

open Chat (Text isSpace strip digitValue sourceMarker)

/-! ## characters -/

def isDecimal (c : Char) : Bool := (digitValue c).isSome

/-- What `str.isdigit` accepts besides the decimal digits. -/
def digitRanges : List (Nat × Nat) :=
  [(0xb2, 0xb3), (0xb9, 0xb9), (0x1369, 0x1371), (0x19da, 0x19da), (0x2070, 0x2070), (0x2074, 0x2079), (0x2080, 0x2089),
    (0x2460, 0x2468), (0x2474, 0x247c), (0x2488, 0x2490), (0x24ea, 0x24ea), (0x24f5, 0x24fd), (0x24ff, 0x24ff),
    (0x2776, 0x277e), (0x2780, 0x2788), (0x278a, 0x2792), (0x10a40, 0x10a43), (0x10e60, 0x10e68), (0x11052, 0x1105a),
    (0x1f100, 0x1f10a)]

def isDigit (c : Char) : Bool :=
  isDecimal c || digitRanges.any (fun r => decide (r.1 ≤ c.toNat ∧ c.toNat ≤ r.2))

def isBlank (c : Char) : Bool := c == ' ' || c == '\t'

def rstrip (text : Text) : Text := (text.reverse.dropWhile isSpace).reverse

def blankText (text : Text) : Bool := text.all isSpace

/-! ## lines -/

def isFence (line : Text) : Bool :=
  let rest := line.dropWhile isBlank
  ['`', '`', '`'].isPrefixOf rest || ['~', '~', '~'].isPrefixOf rest

def isTableRow (line : Text) : Bool :=
  let rest := ((line.dropWhile isBlank).reverse.dropWhile isBlank).reverse
  decide (2 ≤ rest.length) && rest.head? == some '|' && rest.getLast? == some '|'

/-- `[-*+]` or `\d+[.)]` at the head of a text: what follows. -/
def afterBullet (text : Text) : Option Text :=
  match text with
  | [] => none
  | c :: rest =>
    if c == '-' || c == '*' || c == '+' then some rest
    else
      match text.takeWhile isDecimal, text.dropWhile isDecimal with
      | _ :: _, d :: rest => if d == '.' || d == ')' then some rest else none
      | _, _ => none

def isListItem (line : Text) : Bool :=
  match afterBullet (line.dropWhile isBlank) with
  | none => false
  | some rest => (rest.head?.any isBlank) && ((rest.dropWhile isBlank).head?.any (fun c => !isSpace c))

def afterBlanks (text : Text) : Option Text := if text.head?.any isBlank then some (text.dropWhile isBlank) else none

/-- How long the match of `_RE_MD_PREFIX` is; 0 when there is none. -/
def mdPrefixLength (line : Text) : Nat :=
  let rest := line.dropWhile isBlank
  let hashes := (rest.takeWhile (· == '#')).length
  let after :=
    if 1 ≤ hashes ∧ hashes ≤ 6 then afterBlanks (rest.drop hashes)
    else if rest.head? = some '>' then some ((rest.drop 1).dropWhile isBlank)
    else (afterBullet rest).bind afterBlanks
  match after with
  | some after => line.length - after.length
  | none => 0

/-! ## sentences -/

def enders : List Char := ['。', '！', '？', '!', '?']

def closers : List Char := ['」', '』', '】', '”', '’', '"', '\'', ')', '）', '〕', '》']

def endsSentence (prev : Option Char) (c : Char) (rest : Text) : Bool :=
  enders.contains c ||
    (c == '.' && !(prev.any isDigit || rest.head?.any isDigit) && rest.head?.all isSpace)

/-- `_sentence_spans`, from the `i`-th character on: `closing` while what closes the sentence is taken in. -/
def sentenceSpans (start i : Nat) (prev : Option Char) (closing : Bool) : Text → List (Nat × Nat)
  | [] => if start < i then [(start, i)] else []
  | c :: rest =>
    if closing && (closers.contains c || enders.contains c) then sentenceSpans start (i + 1) (some c) true rest
    else if closing then (start, i) :: sentenceSpans i (i + 1) (some c) (endsSentence prev c rest) rest
    else sentenceSpans start (i + 1) (some c) (endsSentence prev c rest) rest

def lineSpans (lineStart : Nat) (line : Text) : List (Nat × Nat) :=
  let bodyStart := mdPrefixLength line
  let body := line.drop bodyStart
  let bodyStart := bodyStart + (body.takeWhile isSpace).length
  let body := body.dropWhile isSpace
  if body = [] then []
  else if isTableRow line || isListItem line then [(lineStart + bodyStart, lineStart + bodyStart + body.length)]
  else
    (sentenceSpans 0 0 none false body).filterMap (fun (s, e) =>
      let piece := (body.take e).drop s
      let ls := (piece.takeWhile isSpace).length
      let rs := (rstrip piece).length
      if rs ≤ ls then none else some (lineStart + bodyStart + s + ls, lineStart + bodyStart + s + rs))

/-- The loop of `split_claim_spans` over the lines. -/
def splitLines (offset : Nat) (inFence : Bool) : List Text → List (Nat × Nat)
  | [] => []
  | rawLine :: lines =>
    let line := rstrip rawLine
    let next := offset + rawLine.length + 1
    if isFence line then splitLines next (!inFence) lines
    else if inFence || line = [] then splitLines next inFence lines
    else lineSpans offset line ++ splitLines next inFence lines

def splitClaimSpans (text : Text) : List (Nat × Nat) :=
  if blankText text then [] else splitLines 0 false (text.splitOn '\n')

/-! ## claims -/

/-- Every `[source N]` of a text, in order.  A text as long as its fuel is done. -/
def markersFrom : Nat → Text → List Nat
  | 0, _ => []
  | _, [] => []
  | fuel + 1, c :: text =>
    match sourceMarker (c :: text) with
    | some (n, rest) => n :: markersFrom fuel rest
    | none => markersFrom fuel text

def claimSourceIndexes (text : Text) : List Nat := (markersFrom text.length text).eraseDups

structure ContextItem where
  contextId : String
  chunkId : String
  contentSha256 : Option String := none
  deriving DecidableEq

structure Claim where
  claimId : Nat
  text : Text
  evidence : List String
  span : Nat × Nat
  dropped : Bool := false
  dropReason : Option String := none
  deriving DecidableEq

/-- `source_index`: the evidence of the request, numbered from 1. -/
def sourceItem (items : List ContextItem) (n : Nat) : Option ContextItem := if n = 0 then none else items[n - 1]?

def evidenceOf (items : List ContextItem) (sentence : Text) : List String :=
  ((claimSourceIndexes sentence).filterMap (sourceItem items)).map (·.contextId) |>.eraseDups

def buildClaims (answer : Text) (items : List ContextItem) : List Claim :=
  (splitClaimSpans answer).zipIdx.map (fun (span, i) =>
    let sentence := (answer.take span.2).drop span.1
    { claimId := i + 1, text := sentence, evidence := evidenceOf items sentence, span := span })

/-- `re.sub(r"[ \\t]+\\n", "\\n", ..)`, with the blanks read and not yet written. -/
def dropTrailingBlanks : Text → Text → Text
  | run, [] => run
  | run, c :: rest =>
    if isBlank c then dropTrailingBlanks (run ++ [c]) rest
    else if c = '\n' then '\n' :: dropTrailingBlanks [] rest
    else run ++ c :: dropTrailingBlanks [] rest

/-- `re.sub(r"\\n{3,}", "\\n\\n", ..)`, with the number of newlines written so far. -/
def collapseNewlines : Nat → Text → Text
  | _, [] => []
  | seen, c :: rest =>
    if c = '\n' then (if seen < 2 then ['\n'] else []) ++ collapseNewlines (seen + 1) rest
    else c :: collapseNewlines 0 rest

def cutSpan (text : Text) (span : Nat × Nat) : Text :=
  if span.1 < span.2 ∧ span.2 ≤ text.length then text.take span.1 ++ text.drop span.2 else text

/-- `remove_claim_spans`: from the last claim to the first. -/
def removeClaimSpans (answer : Text) (claims : List Claim) : Text :=
  let spans := ((claims.filter (·.dropped)).map (·.span)).insertionSort (fun a b => b.1 ≤ a.1)
  strip (collapseNewlines 0 (dropTrailingBlanks [] (spans.foldl cutSpan answer)))

end Rag
end MyGpt
