import MyGpt.Lib.Transducer
import Mathlib.Data.List.TakeWhile
/-!
# SseDecoder — the server-sent events of a text that comes in chunks

`SSEFrameDecoder` of `sse-parser.ts`, over the code units of its strings.  How the text is cut does not matter
(`decode_chunks`): the decoder reads one code unit after the other.
-/
namespace MyGpt
namespace Sse

open Transducer (run)

/-- A string of the frontend: UTF-16 code units, in which a chunk may end anywhere. -/
abbrev JsString := List UInt16

def ascii (s : String) : JsString := s.toList.map (fun c => UInt16.ofNat c.toNat)

def lf : UInt16 := 10
def cr : UInt16 := 13
def colon : UInt16 := 58
def space : UInt16 := 32

structure SSEFrame where
  event : JsString
  data : JsString
  id : Option JsString := none
  deriving DecidableEq

structure Pending where
  event : JsString := []
  dataLines : List JsString := []
  id : Option JsString := none
  deriving DecidableEq

structure SSEFrameDecoder extends Pending where
  buffer : JsString := []
  deriving DecidableEq

/-! ## lines -/

/-- `rawLine.endsWith("\\r") ? rawLine.slice(0, -1) : rawLine` -/
def chomp (rawLine : JsString) : JsString := if rawLine.getLast? = some cr then rawLine.dropLast else rawLine

/-- `.replace(/^ /, "")` -/
def dropSpace : JsString → JsString
  | [] => []
  | c :: value => if c = space then value else c :: value

def fieldOf (line : JsString) : JsString × JsString :=
  (line.takeWhile (· ≠ colon), dropSpace ((line.dropWhile (· ≠ colon)).drop 1))

def isComment (line : JsString) : Bool := line.head? = some colon

namespace Pending

def emit (p : Pending) : Pending × Option SSEFrame :=
  if p.dataLines = [] ∧ p.event = [] then (p, none)
  else ({}, some { event := p.event, data := [lf].intercalate p.dataLines, id := p.id })

def absorb (p : Pending) (line : JsString) : Pending :=
  if isComment line then p
  else if (fieldOf line).1 = ascii "event" then { p with event := (fieldOf line).2 }
  else if (fieldOf line).1 = ascii "data" then { p with dataLines := p.dataLines ++ [(fieldOf line).2] }
  else if (fieldOf line).1 = ascii "id" then
    -- `value || undefined`
    { p with id := if (fieldOf line).2 = [] then none else some (fieldOf line).2 }
  else p

def processLine (p : Pending) (line : JsString) : Pending × Option SSEFrame :=
  if line = [] then p.emit else (p.absorb line, none)

end Pending

namespace SSEFrameDecoder

/-- The loop of `push`, which takes a line off the buffer each time. -/
def drain : Nat → SSEFrameDecoder → SSEFrameDecoder × List SSEFrame
  | 0, dec => (dec, [])
  | fuel + 1, dec =>
    match dec.buffer.dropWhile (· ≠ lf) with
    | [] => (dec, [])
    | _ :: rest =>
      let (pending, frame) := dec.toPending.processLine (chomp (dec.buffer.takeWhile (· ≠ lf)))
      let (dec, out) := drain fuel { pending with buffer := rest }
      (dec, frame.toList ++ out)

def push (dec : SSEFrameDecoder) (chunk : JsString) : SSEFrameDecoder × List SSEFrame :=
  let dec := { dec with buffer := dec.buffer ++ chunk }
  drain dec.buffer.length dec

def flush (dec : SSEFrameDecoder) : Option SSEFrame :=
  if dec.buffer ≠ [] then
    let (pending, frame) := dec.toPending.processLine (chomp dec.buffer)
    match frame with
    | some frame => some frame
    | none => pending.emit.2
  else dec.toPending.emit.2

def decode (chunks : List JsString) : List SSEFrame :=
  let (dec, frames) := run push {} chunks
  frames ++ dec.flush.toList

end SSEFrameDecoder

example : SSEFrameDecoder.decode [ascii "id: 7\r", ascii "\nda", ascii "ta: a\ndata:  b\r\n\r", ascii "\n: hi\n\ndata"] =
    [{ event := [], data := ascii "a\n b", id := some (ascii "7") }, { event := [], data := [] }] := by decide +kernel

/-! ## one code unit after the other -/

open SSEFrameDecoder

def feed (dec : SSEFrameDecoder) (c : UInt16) : SSEFrameDecoder × List SSEFrame :=
  if c = lf then
    ({ (dec.toPending.processLine (chomp dec.buffer)).1 with buffer := [] },
      (dec.toPending.processLine (chomp dec.buffer)).2.toList)
  else ({ dec with buffer := dec.buffer ++ [c] }, [])

def Partial (dec : SSEFrameDecoder) : Prop := lf ∉ dec.buffer

theorem partial_feed (dec : SSEFrameDecoder) (c : UInt16) (h : Partial dec) : Partial (feed dec c).1 := by
  unfold feed
  split
  · exact List.not_mem_nil
  · rename_i hc
    show lf ∉ dec.buffer ++ [c]
    rw [List.mem_append, List.mem_singleton]
    rintro (hold | rfl)
    · exact h hold
    · exact hc rfl

theorem run_feed_buffer (dec : SSEFrameDecoder) {text : JsString} (h : lf ∉ text) :
    run feed dec text = ({ dec with buffer := dec.buffer ++ text }, []) := by
  induction text generalizing dec with
  | nil => simp
  | cons c text ih =>
    have hc : c ≠ lf := fun he => h (he ▸ List.mem_cons_self)
    have hfeed : feed dec c = ({ dec with buffer := dec.buffer ++ [c] }, []) := if_neg hc
    rw [Transducer.run_cons, hfeed, ih _ (fun hm => h (List.mem_cons_of_mem _ hm))]
    simp

/-- **The loop of `push` reads the buffer as the machine does**, with as much fuel as the buffer is long. -/
theorem drain_eq (fuel : Nat) (dec : SSEFrameDecoder) (hfuel : dec.buffer.length ≤ fuel) :
    drain fuel dec = run feed { dec with buffer := [] } dec.buffer := by
  induction fuel generalizing dec with
  | zero =>
    have hnil : dec.buffer = [] := List.length_eq_zero_iff.1 (Nat.le_zero.1 hfuel)
    rw [hnil, Transducer.run_nil, drain]
    cases dec
    simp_all
  | succ fuel ih =>
    have hsplit := List.takeWhile_append_dropWhile (p := (· ≠ lf)) (l := dec.buffer)
    have hline : lf ∉ dec.buffer.takeWhile (· ≠ lf) := fun hm => by simpa using List.mem_takeWhile_imp hm
    rw [drain]
    split
    · rename_i hnone
      rw [hnone, List.append_nil] at hsplit
      rw [run_feed_buffer _ (hsplit ▸ hline)]
      cases dec
      simp
    · rename_i c rest hrest
      have hc : c = lf := by
        have hhead := List.head?_dropWhile_not (· ≠ lf) dec.buffer
        rw [hrest] at hhead
        simpa using hhead
      subst hc
      have hlen : rest.length ≤ fuel := by
        have hle := congrArg List.length hsplit
        rw [hrest, List.length_append, List.length_cons] at hle
        omega
      dsimp only
      rw [ih _ hlen]
      conv_rhs => rw [← hsplit, hrest, Transducer.run_append, run_feed_buffer _ hline, Transducer.run_cons]
      simp [feed]

theorem push_eq (dec : SSEFrameDecoder) (chunk : JsString) (h : Partial dec) : push dec chunk = run feed dec chunk := by
  refine (drain_eq _ { dec with buffer := dec.buffer ++ chunk } (Nat.le_refl _)).trans ?_
  dsimp only
  rw [Transducer.run_append, run_feed_buffer _ h]
  cases dec
  simp

theorem decode_chunks (chunks : List JsString) : decode chunks =
    (run feed {} chunks.flatten).2 ++ ((run feed {} chunks.flatten).1.flush).toList := by
  have hrun : run push {} chunks = run feed {} chunks.flatten := by
    rw [← Transducer.run_pieces]
    exact Transducer.run_congr (P := Partial) (fun s a hs => Transducer.run_invariant partial_feed hs a)
      (fun s a hs => push_eq s a hs) (s := {}) (show lf ∉ [] from List.not_mem_nil) chunks
  unfold decode
  rw [hrun]

end Sse
end MyGpt
