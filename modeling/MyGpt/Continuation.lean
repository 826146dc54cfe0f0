import MyGpt.Characters
/-!
# Continuation — joining an automatic continuation to the text before it

A model that stopped for length is asked to go on, and tends to repeat what it last said.  `ContinuationBuffer` holds back
the first window of the new text, cuts the overlap off and streams the rest; what it lets through does not depend on how
the provider cut the text into chunks (`stream_flatten`).
-/
namespace MyGpt
namespace Chat

/-! ## the overlap -/

/-- `while matched and char != head[matched]: matched = failure[matched - 1]`; a step shortens the match, so the match
itself is fuel enough. -/
def fallBack (head : Text) (failure : List Nat) (c : Char) : Nat → Nat → Nat
  | 0, matched => matched
  | fuel + 1, matched =>
    if matched = 0 ∨ head[matched]? = some c then matched
    else fallBack head failure c fuel (failure.getD (matched - 1) 0)

def failureTable (head : Text) : List Nat :=
  ((head.drop 1).foldl (fun st c =>
    let matched := fallBack head st.1 c st.2 st.2
    let matched := if head[matched]? = some c then matched + 1 else matched
    (st.1 ++ [matched], matched)) (([0], 0) : List Nat × Nat)).1

/-- The scan of `_suffix_prefix_length` over the existing text. -/
def scanOverlap (head : Text) (failure : List Nat) : Nat → Text → Nat
  | matched, [] => matched
  | matched, c :: rest =>
    let matched := fallBack head failure c matched matched
    if head[matched]? = some c then
      -- a full match before the end is no suffix: its longest border goes on
      scanOverlap head failure
        (if matched + 1 = head.length ∧ rest ≠ [] then failure.getD matched 0 else matched + 1) rest
    else scanOverlap head failure matched rest

def suffixPrefixLength (existing head : Text) : Nat :=
  if existing = [] ∨ head = [] then 0 else scanOverlap head (failureTable head) 0 existing

/-- `_normalise_whitespace`: every run of whitespace is one blank, each character with the end of what it stands for. -/
def normaliseWhitespace : Nat → Text → List (Char × Nat)
  | _, [] => []
  | i, c :: rest =>
    if isSpace c then
      if rest.head?.any isSpace then normaliseWhitespace (i + 1) rest
      else (' ', i + 1) :: normaliseWhitespace (i + 1) rest
    else (c, i + 1) :: normaliseWhitespace (i + 1) rest

/-- `continuation_novel_text`. -/
def novelText (window : Nat) (existing continuation : Text) : Text :=
  if continuation = [] then []
  else if existing = [] then continuation
  else if continuation.isSuffixOf existing then []
  else
    let window := max 1 window
    let suffix := existing.drop (existing.length - window)
    let head := continuation.take window
    let exact := suffixPrefixLength suffix head
    let normalized := normaliseWhitespace 0 head
    let overlap := suffixPrefixLength ((normaliseWhitespace 0 suffix).map (·.1)) (normalized.map (·.1))
    let repeated := strip ((normalized.map (·.1)).take overlap)
    let cut := if overlap ≠ 0 ∧ 2 ≤ repeated.length then max exact ((normalized.map (·.2)).getD (overlap - 1) 0) else exact
    continuation.drop cut

/-! ## the buffer -/

structure ContinuationBuffer where
  existing : Text
  window : Nat
  seen : Text := []
  resolved : Bool := false
  deriving DecidableEq

/-- `ContinuationBuffer(existing, comparison_window=window)`. -/
def ContinuationBuffer.open (existing : Text) (window : Nat) : ContinuationBuffer :=
  { existing := existing, window := max 1 window }

def ContinuationBuffer.feed (b : ContinuationBuffer) (chunk : Text) : ContinuationBuffer × Text :=
  if chunk = [] then (b, [])
  else if b.resolved then (b, chunk)
  else
    let needed := b.window - b.seen.length
    let seen := b.seen ++ chunk.take needed
    if seen.length < b.window then ({ b with seen := seen }, [])
    else ({ b with seen := seen, resolved := true }, novelText b.window b.existing seen ++ chunk.drop needed)

def ContinuationBuffer.flush (b : ContinuationBuffer) : Text :=
  if b.resolved then [] else novelText b.window b.existing b.seen

def ContinuationBuffer.stream : ContinuationBuffer → List Text → List Text
  | b, [] => [b.flush]
  | b, chunk :: rest => (b.feed chunk).2 :: (b.feed chunk).1.stream rest

def continuedText (window : Nat) (existing text : Text) : Text :=
  if text.length < window then novelText window existing text
  else novelText window existing (text.take window) ++ text.drop window

theorem stream_resolved : ∀ (chunks : List Text) (b : ContinuationBuffer), b.resolved = true →
    (b.stream chunks).flatten = chunks.flatten
  | [], b, h => by simp [ContinuationBuffer.stream, ContinuationBuffer.flush, h]
  | chunk :: rest, b, h => by
    have hfeed : b.feed chunk = (b, chunk) := by
      unfold ContinuationBuffer.feed
      by_cases hnil : chunk = []
      · rw [if_pos hnil, hnil]
      · rw [if_neg hnil, if_pos h]
    rw [ContinuationBuffer.stream, hfeed, List.flatten_cons, List.flatten_cons, stream_resolved rest b h]

theorem stream_open : ∀ (chunks : List Text) (b : ContinuationBuffer), b.resolved = false → b.seen.length < b.window →
    (b.stream chunks).flatten = continuedText b.window b.existing (b.seen ++ chunks.flatten)
  | [], b, hopen, hlen => by
    simp [ContinuationBuffer.stream, ContinuationBuffer.flush, hopen, continuedText, hlen]
  | chunk :: rest, b, hopen, hlen => by
    rw [ContinuationBuffer.stream, List.flatten_cons, List.flatten_cons]
    by_cases hnil : chunk = []
    · subst hnil
      have hfeed : b.feed [] = (b, []) := rfl
      rw [hfeed, stream_open rest b hopen hlen]
      rfl
    · by_cases hshort : (b.seen ++ chunk.take (b.window - b.seen.length)).length < b.window
      · -- the whole chunk goes into what was seen
        have hall : chunk.take (b.window - b.seen.length) = chunk := by
          rw [List.length_append, List.length_take] at hshort
          exact List.take_of_length_le (by omega)
        have hfeed : b.feed chunk = ({ b with seen := b.seen ++ chunk }, []) := by
          unfold ContinuationBuffer.feed
          rw [if_neg hnil, hopen]
          dsimp only
          rw [hall] at hshort ⊢
          rw [if_neg (by decide), if_pos hshort]
        rw [hall] at hshort
        rw [hfeed]
        have hrest := stream_open rest { b with seen := b.seen ++ chunk } hopen hshort
        rw [List.nil_append, hrest, List.append_assoc]
      · -- the window is full: the overlap is cut off once
        have hfeed : b.feed chunk =
            ({ b with seen := b.seen ++ chunk.take (b.window - b.seen.length), resolved := true },
              novelText b.window b.existing (b.seen ++ chunk.take (b.window - b.seen.length)) ++
                chunk.drop (b.window - b.seen.length)) := by
          unfold ContinuationBuffer.feed
          rw [if_neg hnil, hopen]
          simp only [hshort, if_false, Bool.false_eq_true]
        have hlong : b.window - b.seen.length ≤ chunk.length := by
          rw [List.length_append, List.length_take] at hshort
          omega
        rw [hfeed, stream_resolved rest _ rfl]
        unfold continuedText
        rw [if_neg (by simp only [List.length_append]; omega)]
        have htake : (b.seen ++ (chunk ++ rest.flatten)).take b.window =
            b.seen ++ chunk.take (b.window - b.seen.length) := by
          rw [List.take_append, List.take_of_length_le (by omega), List.take_append_of_le_length hlong]
        have hdrop : (b.seen ++ (chunk ++ rest.flatten)).drop b.window =
            chunk.drop (b.window - b.seen.length) ++ rest.flatten := by
          rw [List.drop_append, List.drop_of_length_le (by omega), List.nil_append,
            List.drop_append_of_le_length hlong]
        rw [htake, hdrop, List.append_assoc]

/-- **What a fresh buffer lets through** is the text without its overlap, however it was cut into chunks. -/
theorem stream_flatten (existing : Text) (window : Nat) (chunks : List Text) :
    ((ContinuationBuffer.open existing window).stream chunks).flatten =
      continuedText (max 1 window) existing chunks.flatten := by
  have hlen : (ContinuationBuffer.open existing window).seen.length < (ContinuationBuffer.open existing window).window := by
    simp only [ContinuationBuffer.open, List.length_nil]
    omega
  exact stream_open chunks _ rfl hlen

end Chat
end MyGpt
