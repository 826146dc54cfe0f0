import MyGpt.SseDecoder
import MyGpt.PromptTemplates
/-!
# JsStrings — the strings of the frontend by code points and by whitespace

A string is UTF-16: a code point is one unit or two that belong together, and where strings are joined a code point may be
made of two (`charLength_append`).  Whitespace is never half of one.
-/
namespace MyGpt
namespace Js

open Sse (JsString)
open Prompts (isJsSpace)

/-! ## code points -/

def isHighSurrogate (u : UInt16) : Bool := 0xd800 ≤ u && u ≤ 0xdbff

def isLowSurrogate (u : UInt16) : Bool := 0xdc00 ≤ u && u ≤ 0xdfff

/-- `Array.from`; a surrogate without its other half stands by itself. -/
def codePoints : JsString → List JsString
  | [] => []
  | [u] => [[u]]
  | u :: v :: rest =>
    if isHighSurrogate u && isLowSurrogate v then [u, v] :: codePoints rest else [u] :: codePoints (v :: rest)

def charLength (text : JsString) : Nat := (codePoints text).length

/-- Whitespace of `trim`; no surrogate is. -/
def isBlank (u : UInt16) : Bool := isJsSpace (Char.ofNat u.toNat)

def trim (text : JsString) : JsString := ((text.dropWhile isBlank).reverse.dropWhile isBlank).reverse

/-! ## counting code points -/

theorem codePoints_flatten : ∀ text : JsString, (codePoints text).flatten = text
  | [] => rfl
  | [_] => rfl
  | u :: v :: rest => by
    rw [codePoints]
    split
    · rw [List.flatten_cons, codePoints_flatten rest]
      rfl
    · rw [List.flatten_cons, codePoints_flatten (v :: rest)]
      rfl

theorem charLength_pair {u v : UInt16} (rest : JsString) (h : (isHighSurrogate u && isLowSurrogate v) = true) :
    charLength (u :: v :: rest) = charLength rest + 1 := by
  unfold charLength
  rw [codePoints, if_pos h, List.length_cons]

theorem charLength_single {u v : UInt16} (rest : JsString) (h : ¬ (isHighSurrogate u && isLowSurrogate v) = true) :
    charLength (u :: v :: rest) = charLength (v :: rest) + 1 := by
  unfold charLength
  rw [codePoints, if_neg h, List.length_cons]

theorem charLength_cons (u : UInt16) : ∀ text : JsString,
    charLength text ≤ charLength (u :: text) ∧ charLength (u :: text) ≤ charLength text + 1
  | [] => ⟨Nat.zero_le _, Nat.le_refl _⟩
  | v :: rest => by
    have ih := charLength_cons v rest
    by_cases hpair : (isHighSurrogate u && isLowSurrogate v) = true
    · rw [charLength_pair rest hpair]
      omega
    · rw [charLength_single rest hpair]
      omega

theorem charLength_append (more : JsString) : ∀ text : JsString, charLength (text ++ more) ≤ charLength text + charLength more
  | [] => by simp
  | [u] => by
    have hone : charLength [u] = 1 := rfl
    have hcons := (charLength_cons u more).2
    rw [List.singleton_append]
    omega
  | u :: v :: rest => by
    have ihPair := charLength_append more rest
    have ihSingle := charLength_append more (v :: rest)
    rw [List.cons_append, List.cons_append]
    rw [List.cons_append] at ihSingle
    by_cases hpair : (isHighSurrogate u && isLowSurrogate v) = true
    · rw [charLength_pair _ hpair, charLength_pair _ hpair]
      omega
    · rw [charLength_single _ hpair, charLength_single _ hpair]
      omega

theorem charLength_suffix (more : JsString) : ∀ text : JsString, charLength more ≤ charLength (text ++ more)
  | [] => Nat.le_refl _
  | u :: rest => Nat.le_trans (charLength_suffix more rest) (charLength_cons u (rest ++ more)).1

theorem charLength_begin (more : JsString) : ∀ text : JsString, charLength text ≤ charLength (text ++ more)
  | [] => Nat.zero_le _
  | [u] => by
    cases more with
    | nil => exact Nat.le_refl _
    | cons v rest =>
      have hone : charLength [u] = 1 := rfl
      rw [List.singleton_append]
      by_cases hpair : (isHighSurrogate u && isLowSurrogate v) = true
      · rw [charLength_pair _ hpair]
        omega
      · rw [charLength_single _ hpair]
        omega
  | u :: v :: rest => by
    have ihPair := charLength_begin more rest
    have ihSingle := charLength_begin more (v :: rest)
    rw [List.cons_append, List.cons_append]
    rw [List.cons_append] at ihSingle
    by_cases hpair : (isHighSurrogate u && isLowSurrogate v) = true
    · rw [charLength_pair _ hpair, charLength_pair _ hpair]
      omega
    · rw [charLength_single _ hpair, charLength_single _ hpair]
      omega

theorem trim_within (text : JsString) : trim text <:+: text := by
  have hfront : text.dropWhile isBlank <:+ text := List.dropWhile_suffix isBlank
  have hback : (text.dropWhile isBlank).reverse.dropWhile isBlank <:+ (text.dropWhile isBlank).reverse :=
    List.dropWhile_suffix isBlank
  have htrim : trim text <+: text.dropWhile isBlank := by
    rw [← List.reverse_suffix, trim, List.reverse_reverse]
    exact hback
  exact htrim.isInfix.trans hfront.isInfix

theorem charLength_trim (text : JsString) : charLength (trim text) ≤ charLength text := by
  obtain ⟨front, back, hsplit⟩ := trim_within text
  calc charLength (trim text) ≤ charLength (front ++ trim text) := charLength_suffix _ front
    _ ≤ charLength (front ++ trim text ++ back) := charLength_begin back _
    _ = charLength text := congrArg charLength hsplit

theorem charLength_codePoint : ∀ (text : JsString), ∀ ch ∈ codePoints text, charLength ch = 1
  | [], _, h => absurd h List.not_mem_nil
  | [u], ch, h => by
    rw [List.mem_singleton.1 h]
    rfl
  | u :: v :: rest, ch, h => by
    rw [codePoints] at h
    split at h
    · rename_i hpair
      rcases List.mem_cons.1 h with rfl | h
      · rw [charLength_pair [] hpair]
        rfl
      · exact charLength_codePoint _ ch h
    · rcases List.mem_cons.1 h with rfl | h
      · rfl
      · exact charLength_codePoint _ ch h

theorem charLength_flatten : ∀ {piece : List JsString}, (∀ ch ∈ piece, charLength ch = 1) →
    charLength piece.flatten ≤ piece.length
  | [], _ => Nat.le_refl _
  | ch :: piece, h => by
    have hone := h ch List.mem_cons_self
    have hrest := charLength_flatten (fun c hc => h c (List.mem_cons_of_mem ch hc))
    have happend := charLength_append piece.flatten ch
    rw [List.flatten_cons, List.length_cons]
    omega

/-! ## without whitespace -/

def inked (text : JsString) : JsString := text.filter (fun u => !isBlank u)

theorem inked_append (text more : JsString) : inked (text ++ more) = inked text ++ inked more := List.filter_append ..

theorem inked_dropWhile : ∀ text : JsString, inked (text.dropWhile isBlank) = inked text
  | [] => rfl
  | u :: rest => by
    by_cases hblank : isBlank u = true
    · rw [List.dropWhile_cons_of_pos hblank, inked_dropWhile rest]
      simp [inked, hblank]
    · rw [List.dropWhile_cons_of_neg hblank]

theorem inked_reverse (text : JsString) : inked text.reverse = (inked text).reverse := List.filter_reverse ..

theorem inked_trim (text : JsString) : inked (trim text) = inked text := by
  rw [trim, inked_reverse, inked_dropWhile, inked_reverse, List.reverse_reverse, inked_dropWhile]

end Js
end MyGpt
