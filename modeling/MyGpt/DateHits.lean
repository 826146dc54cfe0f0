import MyGpt.DateResolution
import Mathlib.Algebra.GroupWithZero.Nat
/-!
# DateHits — when the dates of a question resolve

A claim keeps the hits apart, and what is read is in order unless it is a range of two dates.  So the dates of a text
resolve to hits in order, apart and inside it exactly when every match is `Resolvable` (`resolveRelativeDates_iff`): the
ranges of two dates are not reversed, and all other matches are in the calendar.
-/
namespace MyGpt
namespace Query

open Chat (Text digitValue)
open Regex (Pattern findIter findIter_within findIter_disjoint)
open Calendar (Date date? date?_eq_some date?_isSome maxYear daysInMonth_pos le_iff_ordinal)

/-! ## claims -/

/-- **Hits that keep apart**, none of them empty, within so many characters. -/
structure Apart (size : Nat) (hits : List Hit) : Prop where
  inside : ∀ h ∈ hits, h.start < h.stop ∧ h.stop ≤ size
  disjoint : hits.Pairwise (fun h h' => h.stop ≤ h'.start ∨ h'.stop ≤ h.start)

theorem claim_some (hits : List Hit) (start stop : Nat) (range : DateRange) : claim hits start stop (some range) =
    if hits.any (fun h => h.start < stop && start < h.stop) then hits else hits ++ [⟨start, stop, range⟩] := rfl

theorem claim_mem {hits : List Hit} {start stop : Nat} {range : Option DateRange} {h : Hit} (hh : h ∈ hits) :
    h ∈ claim hits start stop range := by
  cases range with
  | none => exact hh
  | some g =>
    rw [claim_some]
    split
    · exact hh
    · exact List.mem_append_left _ hh

theorem claim_apart {size start stop : Nat} {hits : List Hit} (range : Option DateRange) (h : Apart size hits)
    (hpos : start < stop) (hle : stop ≤ size) : Apart size (claim hits start stop range) := by
  cases range with
  | none => exact h
  | some g =>
    rw [claim_some]
    split
    · exact h
    · rename_i hfree
      rw [List.any_eq_true] at hfree
      refine ⟨fun h' hh' => ?_, List.pairwise_append.2 ⟨h.disjoint, List.pairwise_singleton _ _, fun h' hh' n hn => ?_⟩⟩
      · rcases List.mem_append.1 hh' with hh' | hh'
        · exact h.inside h' hh'
        · rw [List.mem_singleton.1 hh']
          exact ⟨hpos, hle⟩
      · rw [List.mem_singleton.1 hn]
        by_contra hover
        have hover' : h'.start < stop ∧ start < h'.stop := by
          have hin := (h.inside h' hh').1
          simp only [not_or, Nat.not_le] at hover
          omega
        exact hfree ⟨h', hh', by rw [decide_eq_true hover'.1, decide_eq_true hover'.2]; rfl⟩

theorem claims_cons {r : Reading} {rs : List Reading} {hits hits' : List Hit} (h : claims (r :: rs) hits = some hits') :
    ∃ range, r.range = some range ∧ claims rs (claim hits r.start r.stop range) = some hits' :=
  Option.bind_eq_some_iff.1 h

theorem claims_append (rs rs' : List Reading) (hits : List Hit) :
    claims (rs ++ rs') hits = (claims rs hits).bind (claims rs') := by
  induction rs generalizing hits with
  | nil => rfl
  | cons r rs ih =>
    rw [List.cons_append, claims, claims]
    cases r.range with
    | none => rfl
    | some range => exact ih _

theorem claims_isSome {rs : List Reading} {hits : List Hit} : (claims rs hits).isSome ↔ ∀ r ∈ rs, r.range.isSome := by
  induction rs generalizing hits with
  | nil => exact ⟨fun _ => nofun, fun _ => rfl⟩
  | cons r rs ih =>
    rw [claims, isSome_bind, List.forall_mem_cons]
    constructor
    · rintro ⟨range, hrange, h⟩
      exact ⟨Option.isSome_iff_exists.2 ⟨range, hrange⟩, ih.1 h⟩
    · rintro ⟨h, hrest⟩
      obtain ⟨range, hrange⟩ := Option.isSome_iff_exists.1 h
      exact ⟨range, hrange, ih.2 hrest⟩

theorem claims_apart {size : Nat} {rs : List Reading} {hits hits' : List Hit} (h : Apart size hits)
    (hrs : ∀ r ∈ rs, r.start < r.stop ∧ r.stop ≤ size) (hclaims : claims rs hits = some hits') : Apart size hits' := by
  induction rs generalizing hits with
  | nil => exact Option.some.inj hclaims ▸ h
  | cons r rs ih =>
    obtain ⟨range, -, hrest⟩ := claims_cons hclaims
    obtain ⟨hr, hrs⟩ := List.forall_mem_cons.1 hrs
    exact ih (claim_apart range h hr.1 hr.2) hrs hrest

theorem claims_mem {rs : List Reading} {hits hits' : List Hit} (hclaims : claims rs hits = some hits') {h : Hit}
    (hh : h ∈ hits) : h ∈ hits' := by
  induction rs generalizing hits with
  | nil => exact Option.some.inj hclaims ▸ hh
  | cons r rs ih =>
    obtain ⟨range, -, hrest⟩ := claims_cons hclaims
    exact ih hrest (claim_mem hh)

theorem claims_read {rs : List Reading} {hits hits' : List Hit} (hclaims : claims rs hits = some hits') {h : Hit}
    (hh : h ∈ hits') : h ∈ hits ∨ ∃ r ∈ rs, r.range = some (some h.range) := by
  induction rs generalizing hits with
  | nil => exact .inl (Option.some.inj hclaims ▸ hh)
  | cons r rs ih =>
    obtain ⟨range, hrange, hrest⟩ := claims_cons hclaims
    rcases ih hrest with hh | ⟨r', hr', hread⟩
    · cases range with
      | none => exact .inl hh
      | some g =>
        rw [claim_some] at hh
        split at hh
        · exact .inl hh
        · rcases List.mem_append.1 hh with hh | hh
          · exact .inl hh
          · rw [List.mem_singleton.1 hh]
            exact .inr ⟨r, List.mem_cons_self, hrange⟩
    · exact .inr ⟨r', List.mem_cons_of_mem _ hr', hread⟩

theorem claims_take {rs : List Reading} {hits hits' : List Hit} (hrs : rs.Pairwise (fun r r' => r.stop ≤ r'.start))
    (hhits : ∀ h ∈ hits, ∀ r ∈ rs, h.stop ≤ r.start) (hclaims : claims rs hits = some hits') {r : Reading} (hr : r ∈ rs)
    {range : DateRange} (hrange : r.range = some (some range)) : ∃ h ∈ hits', h.range = range := by
  induction rs generalizing hits with
  | nil => cases hr
  | cons r' rs ih =>
    obtain ⟨range', hrange', hrest⟩ := claims_cons hclaims
    obtain ⟨hlater, hrs⟩ := List.pairwise_cons.1 hrs
    have hfree : ∀ h ∈ hits, h.stop ≤ r'.start := fun h hh => hhits h hh r' List.mem_cons_self
    have hclaim : claim hits r'.start r'.stop range' = hits ++ (range'.map (fun g => ⟨r'.start, r'.stop, g⟩)).toList := by
      cases range' with
      | none => exact (List.append_nil hits).symm
      | some g =>
        rw [claim_some, if_neg]
        · rfl
        · rw [List.any_eq_true]
          rintro ⟨h, hh, hover⟩
          rw [Bool.and_eq_true, decide_eq_true_eq, decide_eq_true_eq] at hover
          have hle := hfree h hh
          omega
    rcases List.mem_cons.1 hr with rfl | hr
    · rw [hrange] at hrange'
      rw [hclaim, ← Option.some.inj hrange'] at hrest
      exact ⟨⟨r.start, r.stop, range⟩, claims_mem hrest (List.mem_append_right _ List.mem_cons_self), rfl⟩
    · refine ih hrs (fun h hh q hq => ?_) hrest hr
      rw [hclaim] at hh
      rcases List.mem_append.1 hh with hh | hh
      · exact hhits h hh q (List.mem_cons_of_mem _ hq)
      · obtain ⟨g, -, rfl⟩ := Option.map_eq_some_iff.1 (Option.mem_toList.1 hh)
        exact hlater q hq

/-! ## readers -/

theorem digitValue_lt {c : Char} {v : Nat} (h : digitValue c = some v) : v < 10 := by
  obtain ⟨z, hz, rfl⟩ := Option.map_eq_some_iff.1 h
  have hin := List.find?_some hz
  rw [decide_eq_true_eq] at hin
  omega

theorem number_lt (digits : Text) : number digits < 10 ^ digits.length := by
  have hfold : ∀ (digits : Text) (n : Nat),
      digits.foldl (fun n c => 10 * n + (digitValue c).getD 0) n < (n + 1) * 10 ^ digits.length := by
    intro digits
    induction digits with
    | nil => exact fun n => by simp
    | cons c digits ih =>
      intro n
      have hdigit : (digitValue c).getD 0 < 10 := by
        cases hc : digitValue c with
        | none => decide
        | some v => exact digitValue_lt hc
      refine Nat.lt_of_lt_of_le (ih _) ?_
      rw [List.length_cons, Nat.pow_succ, Nat.mul_comm (10 ^ _) 10, ← Nat.mul_assoc]
      exact Nat.mul_le_mul_right _ (show 10 * n + (digitValue c).getD 0 + 1 ≤ (n + 1) * 10 by omega)
  have h := hfold digits 0
  rwa [Nat.zero_add, Nat.one_mul] at h

theorem yearMonth_year_le (text : Text) : (yearMonth text).1 ≤ 9999 := by
  have hlt := number_lt (text.take 4)
  have hpow : 10 ^ (text.take 4).length ≤ 10 ^ 4 := Nat.pow_le_pow_right (by decide) (List.length_take_le 4 text)
  have hle : number (text.take 4) < 10000 := Nat.lt_of_lt_of_le hlt hpow
  exact Nat.le_of_lt_succ hle

def InCalendar (month : Nat × Nat) : Prop := 1 ≤ month.1 ∧ 1 ≤ month.2 ∧ month.2 ≤ 12

def Last (month : Nat × Nat) : Prop := month.1 = 9999 ∧ month.2 = 12

instance (month : Nat × Nat) : Decidable (InCalendar month) := inferInstanceAs (Decidable (_ ∧ _ ∧ _))

instance (month : Nat × Nat) : Decidable (Last month) := inferInstanceAs (Decidable (_ ∧ _))

theorem firstOfMonth_isSome {month : Nat × Nat} (h : month.1 ≤ 9999) :
    (date? month.1 month.2 1).isSome ↔ InCalendar month := by
  rw [date?_isSome, Int.toNat_natCast]
  unfold Calendar.Valid maxYear InCalendar
  have hday := daysInMonth_pos month.1 month.2
  omega

theorem monthIndex_of_date {month : Nat × Nat} {d : Date} (h : date? month.1 month.2 1 = some d) :
    monthIndex d = month.1 * 12 + (month.2 - 1) := by
  obtain ⟨hy, hm, -⟩ := date?_eq_some.1 h
  unfold monthIndex
  omega

theorem monthsFrom_isSome_iff {month : Nat × Nat} {d : Date} (hyear : month.1 ≤ 9999) (hmonth : InCalendar month)
    (h : date? month.1 month.2 1 = some d) : (monthsFrom 1 d).isSome ↔ ¬ Last month := by
  rw [monthsFrom_isSome (by decide), monthIndex_of_date h]
  unfold Last
  unfold InCalendar at hmonth
  omega

theorem readIsoMonth_isSome {found : Text} : (readIsoMonth found).isSome ↔
    (1 ≤ (yearMonth found).2 ∧ (yearMonth found).2 ≤ 12 → 1 ≤ (yearMonth found).1 ∧ ¬ Last (yearMonth found)) := by
  have hyear := yearMonth_year_le found
  unfold readIsoMonth
  split
  · rename_i hmonth
    rw [Option.isSome_map, isSome_bind]
    constructor
    · rintro ⟨d, hd, h⟩ -
      have hin := (firstOfMonth_isSome hyear).1 (Option.isSome_iff_exists.2 ⟨d, hd⟩)
      exact ⟨hin.1, (monthsFrom_isSome_iff hyear hin hd).1 h⟩
    · intro h
      have hin : InCalendar (yearMonth found) := ⟨(h hmonth).1, hmonth⟩
      obtain ⟨d, hd⟩ := Option.isSome_iff_exists.1 ((firstOfMonth_isSome hyear).2 hin)
      exact ⟨d, hd, (monthsFrom_isSome_iff hyear hin hd).2 (h hmonth).2⟩
  · rename_i hmonth
    exact ⟨fun _ h => absurd h hmonth, fun _ => rfl⟩

theorem readIsoMonthRange_isSome {found : Text} : (readIsoMonthRange found).isSome ↔
    InCalendar (rangeMonths found).1 ∧ InCalendar (rangeMonths found).2 ∧ ¬ Last (rangeMonths found).2 := by
  have hyear : (rangeMonths found).1.1 ≤ 9999 := yearMonth_year_le _
  have hyear' : (rangeMonths found).2.1 ≤ 9999 := yearMonth_year_le _
  unfold readIsoMonthRange
  rw [isSome_bind]
  simp only [isSome_bind, Option.isSome_map]
  constructor
  · rintro ⟨start, hstart, last, hlast, h⟩
    have hin := (firstOfMonth_isSome hyear').1 (Option.isSome_iff_exists.2 ⟨last, hlast⟩)
    exact ⟨(firstOfMonth_isSome hyear).1 (Option.isSome_iff_exists.2 ⟨start, hstart⟩), hin,
      (monthsFrom_isSome_iff hyear' hin hlast).1 h⟩
  · rintro ⟨hin, hin', hnot⟩
    obtain ⟨start, hstart⟩ := Option.isSome_iff_exists.1 ((firstOfMonth_isSome hyear).2 hin)
    obtain ⟨last, hlast⟩ := Option.isSome_iff_exists.1 ((firstOfMonth_isSome hyear').2 hin')
    exact ⟨start, hstart, last, hlast, (monthsFrom_isSome_iff hyear' hin' hlast).2 hnot⟩

theorem readRelative_isSome {kind : Kind} {today : Date} {found : Text} : (readRelative kind today found).isSome ↔
    (countDigits found).length ≤ Json.maxStrDigits ∧ InDomain (number (countDigits found)) today kind := by
  unfold readRelative count
  split
  · rename_i hlong
    exact ⟨fun h => absurd h (by simp), fun h => absurd h.1 (Nat.not_le_of_lt hlong)⟩
  · rename_i hshort
    rw [Option.bind_some, Option.isSome_map, resolve_isSome]
    exact ⟨fun h => ⟨Nat.le_of_not_lt hshort, h⟩, fun h => h.2⟩

/-- **A reader in order**: what it reads does not end before it starts. -/
def InOrder (read : Reader) : Prop := ∀ found range, read found = some (some range) → range.start ≤ range.stop

theorem readIsoMonthRange_inOrder : InOrder readIsoMonthRange := by
  intro found range h
  obtain ⟨start, -, h⟩ := Option.bind_eq_some_iff.1 h
  obtain ⟨last, -, h⟩ := Option.bind_eq_some_iff.1 h
  obtain ⟨month, -, h⟩ := Option.map_eq_some_iff.1 h
  split at h
  · rename_i hle
    exact Option.some.inj h ▸ hle
  · cases h

theorem readIsoDate_inOrder : InOrder readIsoDate := by
  intro found range h
  obtain ⟨d, -, rfl⟩ := Option.map_eq_some_iff.1 (Option.some.inj h)
  exact le_iff_ordinal.2 (Nat.le_refl _)

theorem readIsoMonth_inOrder : InOrder readIsoMonth := by
  intro found range h
  unfold readIsoMonth at h
  split at h
  · obtain ⟨range', h', hrange⟩ := Option.map_eq_some_iff.1 h
    obtain ⟨start, -, h'⟩ := Option.bind_eq_some_iff.1 h'
    obtain ⟨hstart, hle⟩ := monthsFrom_ordered (by decide) h'
    exact Option.some.inj hrange ▸ hstart ▸ hle
  · cases h

theorem readRelative_inOrder (kind : Kind) (today : Date) : InOrder (readRelative kind today) := by
  intro found range h
  obtain ⟨n, -, h⟩ := Option.bind_eq_some_iff.1 h
  obtain ⟨range', h', hrange⟩ := Option.map_eq_some_iff.1 h
  exact Option.some.inj hrange ▸ resolve_ordered h'

/-! ## readings -/

theorem mem_readAll {pattern : Pattern Char} {read : Reader} {text : Text} {r : Reading} :
    r ∈ readAll pattern read text ↔ ∃ m ∈ findIter pattern text, r = ⟨m.1, m.1 + m.2.length, read m.2⟩ := by
  unfold readAll
  rw [List.mem_map]
  exact ⟨fun ⟨m, hm, h⟩ => ⟨m, hm, h.symm⟩, fun ⟨m, hm, h⟩ => ⟨m, hm, h.symm⟩⟩

theorem relative_pos : ∀ p ∈ relative, 0 < p.1.minLength := by
  decide

theorem mem_readings {text : Text} {today : Date} {r : Reading} : r ∈ readings text today ↔
    r ∈ readAll isoRange readIsoRange text ∨ r ∈ readAll isoMonthRange readIsoMonthRange text ∨
      r ∈ readAll isoDate readIsoDate text ∨ r ∈ readAll isoMonth readIsoMonth text ∨
      ∃ p ∈ relative, r ∈ readAll p.1 (readRelative p.2 today) text := by
  unfold readings
  rw [List.mem_append, List.mem_append, List.mem_append, List.mem_append, List.mem_flatMap]

theorem readAll_within {pattern : Pattern Char} {read : Reader} {text : Text} (hpattern : 0 < pattern.minLength) :
    ∀ r ∈ readAll pattern read text, r.start < r.stop ∧ r.stop ≤ text.length := by
  intro r hr
  obtain ⟨m, hm, rfl⟩ := mem_readAll.1 hr
  exact findIter_within hpattern hm

theorem readings_within (text : Text) (today : Date) :
    ∀ r ∈ readings text today, r.start < r.stop ∧ r.stop ≤ text.length := by
  intro r hr
  rcases mem_readings.1 hr with hr | hr | hr | hr | ⟨p, hp, hr⟩
  · exact readAll_within (by decide) r hr
  · exact readAll_within (by decide) r hr
  · exact readAll_within (by decide) r hr
  · exact readAll_within (by decide) r hr
  · exact readAll_within (relative_pos p hp) r hr

/-! ## the hits of a text -/

/-- **Hits in order**: by position, apart, inside the text, and none of their ranges ends before it starts. -/
structure WellFormed (text : Text) (hits : List Hit) : Prop where
  sorted : hits.Pairwise (fun h h' => h.start ≤ h'.start)
  disjoint : hits.Pairwise (fun h h' => h.stop ≤ h'.start ∨ h'.stop ≤ h.start)
  inside : ∀ h ∈ hits, h.start < h.stop ∧ h.stop ≤ text.length
  ordered : ∀ h ∈ hits, h.range.start ≤ h.range.stop

/-- **Where every match can be read**: ranges of two dates are not reversed, the months are in the calendar and, where the
day before the next one is asked for, not its last; numbers are not too long and not too large for the calendar. -/
structure Resolvable (text : Text) (today : Date) : Prop where
  dates : ∀ m ∈ findIter isoRange text, ∀ start stop,
    rangeDates m.2 = (some start, some stop) → start ≤ stop
  monthRanges : ∀ m ∈ findIter isoMonthRange text,
    InCalendar (rangeMonths m.2).1 ∧ InCalendar (rangeMonths m.2).2 ∧ ¬ Last (rangeMonths m.2).2
  months : ∀ m ∈ findIter isoMonth text,
    1 ≤ (yearMonth m.2).2 ∧ (yearMonth m.2).2 ≤ 12 → 1 ≤ (yearMonth m.2).1 ∧ ¬ Last (yearMonth m.2)
  relatives : ∀ p ∈ relative, ∀ m ∈ findIter p.1 text,
    (countDigits m.2).length ≤ Json.maxStrDigits ∧ InDomain (number (countDigits m.2)) today p.2

theorem readAll_isSome {pattern : Pattern Char} {read : Reader} {text : Text} :
    (∀ r ∈ readAll pattern read text, r.range.isSome) ↔ ∀ m ∈ findIter pattern text, (read m.2).isSome := by
  unfold readAll
  rw [List.forall_mem_map]

theorem readIsoRange_isSome (found : Text) : (readIsoRange found).isSome := by
  unfold readIsoRange
  split <;> rfl

theorem readIsoRange_eq {found : Text} {range : DateRange} :
    readIsoRange found = some (some range) ↔ rangeDates found = (some range.start, some range.stop) := by
  unfold readIsoRange
  split
  · rename_i start stop hdates
    rw [hdates, Option.some.injEq, Option.some.injEq, Prod.mk.injEq, Option.some.injEq, Option.some.injEq]
    exact ⟨fun h => h ▸ ⟨rfl, rfl⟩, fun ⟨hstart, hstop⟩ => hstart ▸ hstop ▸ rfl⟩
  · rename_i hnone
    refine ⟨fun h => absurd h (by simp), fun h => absurd h (hnone _ _)⟩

theorem readings_isSome {text : Text} {today : Date} : (∀ r ∈ readings text today, r.range.isSome) ↔
    (∀ m ∈ findIter isoMonthRange text,
      InCalendar (rangeMonths m.2).1 ∧ InCalendar (rangeMonths m.2).2 ∧ ¬ Last (rangeMonths m.2).2) ∧
    (∀ m ∈ findIter isoMonth text,
      1 ≤ (yearMonth m.2).2 ∧ (yearMonth m.2).2 ≤ 12 → 1 ≤ (yearMonth m.2).1 ∧ ¬ Last (yearMonth m.2)) ∧
    ∀ p ∈ relative, ∀ m ∈ findIter p.1 text,
      (countDigits m.2).length ≤ Json.maxStrDigits ∧ InDomain (number (countDigits m.2)) today p.2 := by
  simp only [← readIsoMonthRange_isSome, ← readIsoMonth_isSome, ← readRelative_isSome, ← readAll_isSome]
  constructor
  · intro h
    exact ⟨fun r hr => h r (mem_readings.2 (.inr (.inl hr))),
      fun r hr => h r (mem_readings.2 (.inr (.inr (.inr (.inl hr))))),
      fun p hp r hr => h r (mem_readings.2 (.inr (.inr (.inr (.inr ⟨p, hp, hr⟩)))))⟩
  · rintro ⟨hrange, hmonth, hrelative⟩ r hr
    rcases mem_readings.1 hr with hr | hr | hr | hr | ⟨p, hp, hr⟩
    · obtain ⟨m, -, rfl⟩ := mem_readAll.1 hr
      exact readIsoRange_isSome m.2
    · exact hrange r hr
    · obtain ⟨m, -, rfl⟩ := mem_readAll.1 hr
      rfl
    · exact hmonth r hr
    · exact hrelative p hp r hr

theorem readings_ordered {text : Text} {today : Date} (hdates : ∀ m ∈ findIter isoRange text, ∀ start stop,
    rangeDates m.2 = (some start, some stop) → start ≤ stop) {r : Reading} (hr : r ∈ readings text today)
    {range : DateRange} (hrange : r.range = some (some range)) : range.start ≤ range.stop := by
  rcases mem_readings.1 hr with hr | hr | hr | hr | ⟨p, -, hr⟩
  · obtain ⟨m, hm, rfl⟩ := mem_readAll.1 hr
    exact hdates m hm _ _ (readIsoRange_eq.1 hrange)
  · obtain ⟨m, -, rfl⟩ := mem_readAll.1 hr
    exact readIsoMonthRange_inOrder _ _ hrange
  · obtain ⟨m, -, rfl⟩ := mem_readAll.1 hr
    exact readIsoDate_inOrder _ _ hrange
  · obtain ⟨m, -, rfl⟩ := mem_readAll.1 hr
    exact readIsoMonth_inOrder _ _ hrange
  · obtain ⟨m, -, rfl⟩ := mem_readAll.1 hr
    exact readRelative_inOrder _ _ _ _ hrange

theorem isoRange_hit {text : Text} {today : Date} {hits : List Hit} (hclaims : claims (readings text today) [] = some hits)
    {m : Nat × Text} (hm : m ∈ findIter isoRange text) {range : DateRange} (hrange : readIsoRange m.2 = some (some range)) :
    ∃ h ∈ hits, h.range = range := by
  unfold readings at hclaims
  rw [claims_append] at hclaims
  obtain ⟨first, hfirst, hrest⟩ := Option.bind_eq_some_iff.1 hclaims
  have hapart : (readAll isoRange readIsoRange text).Pairwise (fun r r' => r.stop ≤ r'.start) :=
    List.pairwise_map.2 (findIter_disjoint isoRange text)
  obtain ⟨h, hh, heq⟩ := claims_take hapart (fun h hh => absurd hh List.not_mem_nil) hfirst (mem_readAll.2 ⟨m, hm, rfl⟩) hrange
  exact ⟨h, claims_mem hrest hh, heq⟩

theorem Hit.le_total (h h' : Hit) : h.le h' ∨ h'.le h := Nat.le_total _ _

theorem Hit.le_trans {h h' h'' : Hit} (hle : h.le h') (hle' : h'.le h'') : h.le h'' := Nat.le_trans hle hle'

theorem sorted_wellFormed {text : Text} {hits : List Hit} (h : Apart text.length hits)
    (hordered : ∀ h ∈ hits, h.range.start ≤ h.range.stop) : WellFormed text (hits.insertionSort Hit.le) where
  sorted := by
    have : Std.Total Hit.le := ⟨Hit.le_total⟩
    have : IsTrans Hit Hit.le := ⟨fun _ _ _ => Hit.le_trans⟩
    exact List.pairwise_insertionSort Hit.le hits
  disjoint := ((List.perm_insertionSort Hit.le hits).pairwise_iff Or.symm).2 h.disjoint
  inside := fun h' hh' => h.inside h' ((List.mem_insertionSort Hit.le).1 hh')
  ordered := fun h' hh' => hordered h' ((List.mem_insertionSort Hit.le).1 hh')

/-- **The dates of a text resolve to hits in order** exactly when every match can be read. -/
theorem resolveRelativeDates_iff (text : Text) (today : Date) :
    (∃ hits out, resolveRelativeDates text today = some (hits, out) ∧ WellFormed text hits) ↔ Resolvable text today := by
  constructor
  · rintro ⟨hits, out, hresolve, hwell⟩
    obtain ⟨claimed, hclaims, heq⟩ := Option.map_eq_some_iff.1 hresolve
    rw [Prod.mk.injEq] at heq
    obtain ⟨rfl, -⟩ := heq
    obtain ⟨hranges, hmonths, hrelatives⟩ :=
      readings_isSome.1 (claims_isSome.1 (Option.isSome_iff_exists.2 ⟨claimed, hclaims⟩))
    refine ⟨fun m hm start stop hdates => ?_, hranges, hmonths, hrelatives⟩
    have hrange : readIsoRange m.2 = some (some ⟨start, stop⟩) := readIsoRange_eq.2 hdates
    obtain ⟨h, hh, heq⟩ := isoRange_hit hclaims hm hrange
    have hordered := hwell.ordered h ((List.mem_insertionSort Hit.le).2 hh)
    rwa [heq] at hordered
  · rintro ⟨hdates, hranges, hmonths, hrelatives⟩
    have hsome : (claims (readings text today) []).isSome :=
      claims_isSome.2 (readings_isSome.2 ⟨hranges, hmonths, hrelatives⟩)
    obtain ⟨hits, hclaims⟩ := Option.isSome_iff_exists.1 hsome
    refine ⟨_, _, congrArg (Option.map _) hclaims, sorted_wellFormed ?_ fun h hh => ?_⟩
    · exact claims_apart ⟨fun h hh => absurd hh List.not_mem_nil, .nil⟩ (readings_within text today) hclaims
    · rcases claims_read hclaims hh with hh | ⟨r, hr, hread⟩
      · cases hh
      · exact readings_ordered hdates hr hread

end Query
end MyGpt
