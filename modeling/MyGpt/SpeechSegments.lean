import MyGpt.JsStrings
import Mathlib.Data.Rat.Floor
import Mathlib.Data.List.Infix
/-!
# SpeechSegments — an answer cut into texts that are short enough to be spoken

`splitTextForSpeech` of `lib/voice.ts`.  The service counts code points and a string of the frontend is UTF-16, so a text is
cut between code points: a segment is the join of whole ones, trimmed (`pushed`), and what is packed never grows beyond the
limit.  No segment is empty or too long, and only whitespace is lost (`splitTextForSpeech_spec`).
-/
namespace MyGpt
namespace Voice

open Sse (JsString)
open Js

/-! ## sentences -/

/-- `"。！？；!?;\n…"` -/
def sentenceEndings : JsString := [0x3002, 0xff01, 0xff1f, 0xff1b, 0x21, 0x3f, 0x3b, 0x0a, 0x2026]

/-- `SENTENCE_ENDINGS.includes(ch)` -/
def endsSentence (ch : JsString) : Bool := decide (ch <:+: sentenceEndings)

/-- The loop of `splitSentences`, with the sentence it is in. -/
def sentencesFrom (current : List JsString) : List JsString → List (List JsString)
  | [] => if current = [] then [] else [current]
  | ch :: chars =>
    if endsSentence ch then (current ++ [ch]) :: sentencesFrom [] chars else sentencesFrom (current ++ [ch]) chars

def splitSentences (chars : List JsString) : List (List JsString) := sentencesFrom [] chars

/-! ## segments -/

/-- `push`. -/
def pushed (piece : List JsString) : List JsString :=
  let joined := trim piece.flatten
  if joined = [] then [] else [joined]

def hardCut (limit : Nat) : Nat → List JsString → List (List JsString)
  | 0, _ => []
  | fuel + 1, sentence =>
    if sentence = [] then [] else sentence.take limit :: hardCut limit fuel (sentence.drop limit)

def pack (limit : Nat) (buffer : List JsString) : List (List JsString) → List JsString
  | [] => pushed buffer
  | sentence :: sentences =>
    if limit < sentence.length then
      pushed buffer ++ (hardCut limit sentence.length sentence).flatMap pushed ++ pack limit [] sentences
    else if limit < buffer.length + sentence.length then pushed buffer ++ pack limit sentence sentences
    else pack limit (buffer ++ sentence) sentences

/-- `maxChars` is `none` where no length is more than it: it is infinite, or no number. -/
def splitTextForSpeech (text : JsString) (maxChars : Option Rat) : List JsString :=
  let cleaned := trim text
  if cleaned = [] then []
  else
    match maxChars.map Int.floor with
    | none => [cleaned]
    | some limit =>
      if limit ≤ 0 then []
      else if (codePoints cleaned).length ≤ limit then [cleaned]
      else pack limit.toNat [] (splitSentences (codePoints cleaned))

/-! ## what is lost -/

theorem inked_pushed (piece : List JsString) : inked (pushed piece).flatten = inked piece.flatten := by
  rw [← inked_trim piece.flatten]
  unfold pushed
  dsimp only
  split
  · rename_i hempty
    rw [hempty]
    rfl
  · rw [List.flatten_cons, List.flatten_nil, List.append_nil]

theorem inked_pushedAll : ∀ pieces : List (List JsString),
    inked (pieces.flatMap pushed).flatten = inked pieces.flatten.flatten
  | [] => rfl
  | piece :: pieces => by
    rw [List.flatMap_cons, List.flatten_append, inked_append, inked_pushed, inked_pushedAll pieces, List.flatten_cons,
      List.flatten_append, inked_append]

theorem sentencesFrom_flatten : ∀ (chars current : List JsString), (sentencesFrom current chars).flatten = current ++ chars
  | [], current => by
    unfold sentencesFrom
    split
    · rename_i hempty
      rw [hempty]
      rfl
    · simp
  | ch :: chars, current => by
    unfold sentencesFrom
    split
    · rw [List.flatten_cons, sentencesFrom_flatten chars []]
      simp
    · rw [sentencesFrom_flatten chars (current ++ [ch])]
      simp

theorem hardCut_flatten {limit : Nat} (hlimit : 0 < limit) : ∀ (fuel : Nat) {sentence : List JsString},
    sentence.length ≤ fuel → (hardCut limit fuel sentence).flatten = sentence := by
  intro fuel
  induction fuel with
  | zero =>
    intro sentence h
    rw [List.eq_nil_of_length_eq_zero (Nat.le_zero.1 h)]
    rfl
  | succ fuel ih =>
    intro sentence h
    unfold hardCut
    split
    · rename_i hempty
      rw [hempty]
      rfl
    · have hshorter : (sentence.drop limit).length ≤ fuel := by
        rw [List.length_drop]
        omega
      rw [List.flatten_cons, ih hshorter, List.take_append_drop]

theorem inked_pack {limit : Nat} (hlimit : 0 < limit) : ∀ (sentences : List (List JsString)) (buffer : List JsString),
    inked (pack limit buffer sentences).flatten = inked (buffer ++ sentences.flatten).flatten
  | [], buffer => by
    rw [pack, inked_pushed, List.flatten_nil, List.append_nil]
  | sentence :: sentences, buffer => by
    rw [pack, List.flatten_cons, List.flatten_append, List.flatten_append, inked_append, inked_append]
    split
    · rw [List.flatten_append, List.flatten_append, inked_append, inked_append, inked_pushed, inked_pushedAll,
        hardCut_flatten hlimit _ (Nat.le_refl _), inked_pack hlimit sentences [], List.nil_append, List.append_assoc]
    · split
      · rw [List.flatten_append, inked_append, inked_pushed, inked_pack hlimit sentences sentence, List.flatten_append,
          inked_append]
      · rw [inked_pack hlimit sentences (buffer ++ sentence)]
        simp only [List.flatten_append, inked_append, List.append_assoc]

/-! ## how long a segment is -/

def Fits (limit : Nat) (piece : List JsString) : Prop := piece.length ≤ limit ∧ ∀ ch ∈ piece, charLength ch = 1

def Speakable (limit : Nat) (segment : JsString) : Prop := segment ≠ [] ∧ charLength segment ≤ limit

theorem fits_nil (limit : Nat) : Fits limit [] := ⟨Nat.zero_le _, fun _ h => absurd h List.not_mem_nil⟩

theorem pushed_speakable {limit : Nat} {piece : List JsString} (h : Fits limit piece) :
    ∀ segment ∈ pushed piece, Speakable limit segment := by
  intro segment hsegment
  unfold pushed at hsegment
  dsimp only at hsegment
  split at hsegment
  · cases hsegment
  · rename_i hink
    rw [List.mem_singleton.1 hsegment]
    refine ⟨hink, ?_⟩
    calc charLength (trim piece.flatten) ≤ charLength piece.flatten := charLength_trim _
      _ ≤ piece.length := charLength_flatten h.2
      _ ≤ limit := h.1

theorem hardCut_fits {limit : Nat} : ∀ (fuel : Nat) {sentence : List JsString}, (∀ ch ∈ sentence, charLength ch = 1) →
    ∀ piece ∈ hardCut limit fuel sentence, Fits limit piece := by
  intro fuel
  induction fuel with
  | zero =>
    intro sentence _ piece hpiece
    cases hpiece
  | succ fuel ih =>
    intro sentence hchars piece hpiece
    unfold hardCut at hpiece
    split at hpiece
    · cases hpiece
    · rcases List.mem_cons.1 hpiece with rfl | hpiece
      · exact ⟨List.length_take_le _ _, fun ch hch => hchars ch (List.mem_of_mem_take hch)⟩
      · exact ih (fun ch hch => hchars ch (List.mem_of_mem_drop hch)) piece hpiece

theorem pack_speakable {limit : Nat} : ∀ (sentences : List (List JsString)) {buffer : List JsString}, Fits limit buffer →
    (∀ sentence ∈ sentences, ∀ ch ∈ sentence, charLength ch = 1) →
    ∀ segment ∈ pack limit buffer sentences, Speakable limit segment
  | [], buffer, hbuffer, _, segment, hsegment => pushed_speakable hbuffer segment hsegment
  | sentence :: sentences, buffer, hbuffer, hchars, segment, hsegment => by
    have hsentence := hchars sentence List.mem_cons_self
    have hlater : ∀ s ∈ sentences, ∀ ch ∈ s, charLength ch = 1 := fun s hs => hchars s (List.mem_cons_of_mem _ hs)
    unfold pack at hsegment
    split at hsegment
    · rcases List.mem_append.1 hsegment with hsegment | hsegment
      · rcases List.mem_append.1 hsegment with hsegment | hsegment
        · exact pushed_speakable hbuffer segment hsegment
        · obtain ⟨piece, hpiece, hmem⟩ := List.mem_flatMap.1 hsegment
          exact pushed_speakable (hardCut_fits _ hsentence piece hpiece) segment hmem
      · exact pack_speakable sentences (fits_nil limit) hlater segment hsegment
    · rename_i hshort
      split at hsegment
      · rcases List.mem_append.1 hsegment with hsegment | hsegment
        · exact pushed_speakable hbuffer segment hsegment
        · exact pack_speakable sentences ⟨Nat.not_lt.1 hshort, hsentence⟩ hlater segment hsegment
      · rename_i hroom
        have hfits : Fits limit (buffer ++ sentence) := by
          refine ⟨by rw [List.length_append]; omega, fun ch hch => ?_⟩
          rcases List.mem_append.1 hch with hch | hch
          · exact hbuffer.2 ch hch
          · exact hsentence ch hch
        exact pack_speakable sentences hfits hlater segment hsegment

/-! ## the text -/

/-- **Speech segmentation.**  No segment is empty or has more code points than `maxChars`, and the segments together are
the text but for whitespace. -/
theorem splitTextForSpeech_spec (text : JsString) (maxChars : Option Rat) (hmax : ∀ m, maxChars = some m → 1 ≤ m) :
    (∀ segment ∈ splitTextForSpeech text maxChars,
        segment ≠ [] ∧ ∀ m, maxChars = some m → (charLength segment : Rat) ≤ m) ∧
      inked (splitTextForSpeech text maxChars).flatten = inked text := by
  unfold splitTextForSpeech
  dsimp only
  split
  · rename_i hempty
    refine ⟨fun _ h => absurd h List.not_mem_nil, ?_⟩
    rw [← inked_trim text, hempty]
    rfl
  · rename_i hink
    have hwhole : inked [trim text].flatten = inked text := by
      rw [List.flatten_cons, List.flatten_nil, List.append_nil, inked_trim]
    cases maxChars with
    | none =>
      refine ⟨fun segment h => ?_, hwhole⟩
      rw [List.mem_singleton.1 h]
      exact ⟨hink, nofun⟩
    | some m =>
      have hpos : 0 < ⌊m⌋ := Int.floor_pos.2 (hmax m rfl)
      have hfits : ∀ n : Nat, (n : Int) ≤ ⌊m⌋ → ∀ m', some m = some m' → (n : Rat) ≤ m' := by
        rintro n hn _ ⟨⟩
        exact_mod_cast Int.le_floor.1 hn
      rw [Option.map_some]
      dsimp only
      rw [if_neg (Int.not_le.2 hpos)]
      split
      · rename_i hshort
        refine ⟨fun segment h => ?_, hwhole⟩
        rw [List.mem_singleton.1 h]
        exact ⟨hink, hfits _ hshort⟩
      · have hlimit : 0 < ⌊m⌋.toNat := by omega
        have hsentences := sentencesFrom_flatten (codePoints (trim text)) []
        refine ⟨fun segment h => ?_, ?_⟩
        · have hchars : ∀ sentence ∈ splitSentences (codePoints (trim text)), ∀ ch ∈ sentence, charLength ch = 1 := by
            intro sentence hsentence ch hch
            refine charLength_codePoint (trim text) ch ?_
            rw [← List.nil_append (codePoints (trim text)), ← hsentences]
            exact List.mem_flatten.2 ⟨sentence, hsentence, hch⟩
          obtain ⟨hne, hlength⟩ := pack_speakable _ (fits_nil _) hchars segment h
          exact ⟨hne, hfits _ (by omega)⟩
        · rw [inked_pack hlimit, splitSentences, hsentences, List.nil_append, List.nil_append, codePoints_flatten,
            inked_trim]

/-- `"a\n😀😀"` in segments of at most two code points. -/
theorem splitTextForSpeech_spec_emoji :
    inked (splitTextForSpeech [0x61, 0x0a, 0xd83d, 0xde00, 0xd83d, 0xde00] (some 2)).flatten =
        [0x61, 0xd83d, 0xde00, 0xd83d, 0xde00] ∧
      ∀ segment ∈ splitTextForSpeech [0x61, 0x0a, 0xd83d, 0xde00, 0xd83d, 0xde00] (some 2),
        segment ≠ [] ∧ ∀ m, some 2 = some m → (charLength segment : Rat) ≤ m := by
  have h := splitTextForSpeech_spec [0x61, 0x0a, 0xd83d, 0xde00, 0xd83d, 0xde00] (some 2) (by rintro _ ⟨⟩; decide)
  exact ⟨h.2, h.1⟩

end Voice
end MyGpt
