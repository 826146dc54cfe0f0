import MyGpt.Characters
import MyGpt.Json
import MyGpt.Lib.Regex
import MyGpt.Lib.Calendar
import Mathlib.Data.List.Sort
/-!
# RelativeDates — the dates of a question

`resolve_relative_dates` of `rag/query_plan.py`.  Every match of a date pattern is read before it claims its place, so the
question has an answer only when each of them can be read: `Resolvable` is where the calendar and `int` can, and where a
range of two dates is not reversed (`resolveRelativeDates_iff`).
-/
namespace MyGpt
namespace Query

open Chat (Text isSpace digitValue)
open Regex (Pattern Accepts findIter)
open Calendar (Date date? maxOrdinal)

/-! ## ranges -/

structure DateRange where
  start : Date
  stop : Date

def monthStart (d : Date) : Date :=
  ⟨d.year, d.month, 1, d.valid.1, d.valid.2.1, Nat.le_refl 1, Nat.le_trans d.valid.2.2.1 d.valid.2.2.2⟩

/-- The last day up to `day` that the month has; the loop of `_add_months`. -/
def clampDay (year : Int) (month : Nat) : Nat → Option Date
  | 0 => date? year month 1
  | day + 1 =>
    match date? year month (day + 1) with
    | some d => some d
    | none => clampDay year month day

def monthIndex (d : Date) : Nat := d.year * 12 + (d.month - 1)

def addMonths (d : Date) (months : Int) : Option Date :=
  let total := monthIndex d + months
  clampDay (total / 12) ((total % 12).toNat + 1) d.day

inductive Kind
  | daysAgo
  | monthsAgo
  | yearsAgo
  | lastDays
  | lastMonths
  | lastYears
  | today
  | yesterday
  | dayBeforeYesterday
  | tomorrow
  | thisWeek
  | lastWeek
  | thisQuarter
  | lastQuarter
  | thisMonth
  | lastMonth
  | nextMonth
  | thisYear
  | lastYear
  | yearBeforeLast
  deriving DecidableEq

def oneDay (d : Date) : DateRange := ⟨d, d⟩

def monthsFrom (months : Int) (start : Date) : Option DateRange :=
  (addMonths start months).bind (fun next => (next.addDays (-1)).map (fun stop => ⟨start, stop⟩))

def weekFrom (monday : Date) : Option DateRange := (monday.addDays 6).map (fun sunday => ⟨monday, sunday⟩)

def wholeYear (year : Int) : Option DateRange :=
  (date? year 1 1).bind (fun start => (date? year 12 31).map (fun stop => ⟨start, stop⟩))

def monday (today : Date) : Option Date := today.addDays (-today.weekday)

def quarterStart (today : Date) : Option Date := date? today.year (3 * ((today.month - 1) / 3) + 1) 1

/-- `_resolve`; nothing when the calendar ends before it. -/
def resolve (n : Nat) (today : Date) : Kind → Option DateRange
  | .daysAgo => (today.addDays (-n)).map oneDay
  | .monthsAgo => (addMonths today (-n)).map (fun start => ⟨start, today⟩)
  | .yearsAgo => (date? (today.year - n) 1 1).map (fun start => ⟨start, today⟩)
  | .lastDays => (today.addDays (-max 0 (n - 1))).map (fun start => ⟨start, today⟩)
  | .lastMonths => (addMonths today (-n)).map (fun start => ⟨start, today⟩)
  | .lastYears => (date? (today.year - n) 1 1).map (fun start => ⟨start, today⟩)
  | .today => some (oneDay today)
  | .yesterday => (today.addDays (-1)).map oneDay
  | .dayBeforeYesterday => (today.addDays (-2)).map oneDay
  | .tomorrow => (today.addDays 1).map oneDay
  | .thisWeek => (monday today).bind weekFrom
  | .lastWeek => ((monday today).bind (fun m => m.addDays (-7))).bind weekFrom
  | .thisQuarter => (quarterStart today).bind (monthsFrom 3)
  | .lastQuarter => ((quarterStart today).bind (fun start => addMonths start (-3))).bind (monthsFrom 3)
  | .thisMonth => monthsFrom 1 (monthStart today)
  | .lastMonth =>
    (addMonths (monthStart today) (-1)).bind (fun start => ((monthStart today).addDays (-1)).map (fun stop => ⟨start, stop⟩))
  | .nextMonth => (addMonths (monthStart today) 1).bind (monthsFrom 1)
  | .thisYear => wholeYear today.year
  | .lastYear => wholeYear (today.year - 1)
  | .yearBeforeLast => wholeYear (today.year - 2)

/-! ## patterns -/

def lit (c : Char) : Pattern Char := .char (· == c)

def word (c : Char) : List Char → Pattern Char
  | [] => lit c
  | d :: cs => .seq (lit c) (word d cs)

def anyOf (p : Pattern Char) (ps : List (Pattern Char)) : Pattern Char := ps.foldl .alt p

def isDigit (c : Char) : Bool := (digitValue c).isSome

def digit : Pattern Char := .char isDigit

def blanks : Pattern Char := .star (.char isSpace)

def isoMonth : Pattern Char :=
  .seq digit <| .seq digit <| .seq digit <| .seq digit <| .seq (lit '-') <| .seq digit digit

def isoDate : Pattern Char := .seq isoMonth <| .seq (lit '-') <| .seq digit digit

def rangeSep : Pattern Char :=
  .seq blanks <| .seq (.char (fun c => ['~', '～', '—', '–', '-', '至', '到'].contains c)) blanks

/-- `_RE_ISO_RANGE` -/
def isoRange : Pattern Char := .seq isoDate <| .seq rangeSep isoDate

/-- `_RE_ISO_MONTH_RANGE` -/
def isoMonthRange : Pattern Char := .seq isoMonth <| .seq rangeSep isoMonth

/-- `\s*(\d+)\s*` and a unit. -/
def counted (unit : Pattern Char) : Pattern Char :=
  .seq blanks <| .seq digit <| .seq (.star digit) <| .seq blanks unit

def months : Pattern Char := .seq (.upTo 1 (lit '个')) (lit '月')

def past : Pattern Char := anyOf (word '过' ['去']) [word '最' ['近'], lit '近']

def relative : List (Pattern Char × Kind) :=
  [(.seq (lit '前') (counted (lit '天')), .daysAgo),
    (.seq (lit '前') (counted months), .monthsAgo),
    (.seq (lit '前') (counted (lit '年')), .yearsAgo),
    (.seq past (counted (lit '天')), .lastDays),
    (.seq past (counted months), .lastMonths),
    (.seq past (counted (lit '年')), .lastYears),
    (anyOf (word '今' ['天']) [word '今' ['日']], .today),
    (anyOf (word '昨' ['天']) [word '昨' ['日']], .yesterday),
    (word '前' ['天'], .dayBeforeYesterday),
    (anyOf (word '明' ['天']) [word '明' ['日']], .tomorrow),
    (anyOf (word '本' ['周']) [word '这' ['周'], word '这' ['一', '周'], word '这' ['个', '星', '期'], word '本' ['星', '期']],
      .thisWeek),
    (anyOf (word '上' ['周']) [word '上' ['星', '期'], word '上' ['个', '星', '期']], .lastWeek),
    (anyOf (word '本' ['季', '度']) [word '这' ['个', '季', '度'], word '这' ['季', '度']], .thisQuarter),
    (anyOf (word '上' ['季', '度']) [word '上' ['个', '季', '度'], word '上' ['一', '季', '度']], .lastQuarter),
    (anyOf (word '本' ['月']) [word '这' ['个', '月'], word '这' ['月']], .thisMonth),
    (anyOf (word '上' ['个', '月']) [word '上' ['月'], word '上' ['一', '个', '月']], .lastMonth),
    (anyOf (word '下' ['个', '月']) [word '下' ['月']], .nextMonth),
    (anyOf (word '今' ['年']) [word '本' ['年'], word '这' ['年']], .thisYear),
    (anyOf (word '去' ['年']) [word '上' ['年'], word '上' ['一', '年']], .lastYear),
    (word '前' ['年'], .yearBeforeLast)]

/-! ## what a match stands for -/

def number (digits : Text) : Nat := digits.foldl (fun n c => 10 * n + (digitValue c).getD 0) 0

/-- `date.fromisoformat` of a text of the form `0000-00-00`: only ASCII digits are digits. -/
def fromIsoFormat (text : Text) : Option Date :=
  if text.all (fun c => c == '-' || ('0' ≤ c && c ≤ '9')) then
    date? (number (text.take 4)) (number ((text.drop 5).take 2)) (number ((text.drop 8).take 2))
  else none

/-- The year and the month of `0000-00`. -/
def yearMonth (text : Text) : Nat × Nat := (number (text.take 4), number ((text.drop 5).take 2))

def rangeDates (found : Text) : Option Date × Option Date :=
  (fromIsoFormat (found.take 10), fromIsoFormat (found.drop (found.length - 10)))

def rangeMonths (found : Text) : (Nat × Nat) × (Nat × Nat) :=
  (yearMonth (found.take 7), yearMonth (found.drop (found.length - 7)))

/-- What the body of a loop makes of a match: nothing when it raises, and no range where the match is passed over. -/
abbrev Reader : Type := Text → Option (Option DateRange)

def readIsoRange : Reader := fun found =>
  match rangeDates found with
  | (some start, some stop) => some (some ⟨start, stop⟩)
  | _ => some none

def readIsoMonthRange : Reader := fun found =>
  (date? (rangeMonths found).1.1 (rangeMonths found).1.2 1).bind fun start =>
    (date? (rangeMonths found).2.1 (rangeMonths found).2.2 1).bind fun last =>
      (monthsFrom 1 last).map fun range => if start ≤ range.stop then some ⟨start, range.stop⟩ else none

def readIsoDate : Reader := fun found => some ((fromIsoFormat found).map oneDay)

def readIsoMonth : Reader := fun found =>
  if 1 ≤ (yearMonth found).2 ∧ (yearMonth found).2 ≤ 12 then
    ((date? (yearMonth found).1 (yearMonth found).2 1).bind (monthsFrom 1)).map some
  else some none

def countDigits (found : Text) : Text := found.filter isDigit

/-- `int(match.group(1))`, or 0 without a group. -/
def count (found : Text) : Option Nat :=
  if Json.maxStrDigits < (countDigits found).length then none else some (number (countDigits found))

def readRelative (kind : Kind) (today : Date) : Reader := fun found =>
  (count found).bind (fun n => (resolve n today kind).map some)

/-! ## hits -/

structure Hit where
  start : Nat
  stop : Nat
  range : DateRange

structure Reading where
  start : Nat
  stop : Nat
  range : Option (Option DateRange)

def readAll (pattern : Pattern Char) (read : Reader) (text : Text) : List Reading :=
  (findIter pattern text).map (fun m => ⟨m.1, m.1 + m.2.length, read m.2⟩)

def readings (text : Text) (today : Date) : List Reading :=
  readAll isoRange readIsoRange text ++ (readAll isoMonthRange readIsoMonthRange text ++ (readAll isoDate readIsoDate text ++
    (readAll isoMonth readIsoMonth text ++ relative.flatMap (fun p => readAll p.1 (readRelative p.2 today) text))))

def claim (hits : List Hit) (start stop : Nat) : Option DateRange → List Hit
  | none => hits
  | some range => if hits.any (fun h => h.start < stop && start < h.stop) then hits else hits ++ [⟨start, stop, range⟩]

def claims : List Reading → List Hit → Option (List Hit)
  | [], hits => some hits
  | r :: rs, hits => r.range.bind (fun range => claims rs (claim hits r.start r.stop range))

/-! ## the text without them -/

def pad (width n : Nat) : Text := List.replicate (width - (Nat.toDigits 10 n).length) '0' ++ Nat.toDigits 10 n

def isoformat (d : Date) : Text := pad 4 d.year ++ '-' :: pad 2 d.month ++ '-' :: pad 2 d.day

def canonicalRange (range : DateRange) : Text :=
  if range.start = range.stop then isoformat range.start else isoformat range.start ++ '_' :: isoformat range.stop

def rewrite (text : Text) (hits : List Hit) : Text :=
  hits.foldr (fun h out => out.take h.start ++ canonicalRange h.range ++ out.drop h.stop) text

def Hit.le (h h' : Hit) : Prop := h.start ≤ h'.start

instance (h h' : Hit) : Decidable (h.le h') := inferInstanceAs (Decidable (_ ≤ _))

def resolveRelativeDates (text : Text) (today : Date) : Option (List Hit × Text) :=
  (claims (readings text today) []).map (fun hits =>
    (hits.insertionSort Hit.le, rewrite text (hits.insertionSort Hit.le)))

end Query
end MyGpt
