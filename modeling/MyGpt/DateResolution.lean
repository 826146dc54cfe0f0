import MyGpt.RelativeDates
/-!
# DateResolution — which relative dates there are

A relative date is there as long as the calendar is: `InDomain` says so for each kind of it, from the number and today
(`resolve_isSome`).  Where it is there, its range is in order (`resolve_ordered`).
-/
namespace MyGpt
namespace Query

open Calendar (Date date? date?_eq_some date?_isSome maxOrdinal maxYear daysInMonth_pos le_def le_iff_ordinal addDays_eq_some
  addDays_isSome ordinal_lt_of_year ordinal_lt_of_month)

/-! ## months -/

theorem monthIndex_ge (d : Date) : 12 ≤ monthIndex d := by
  have hyear := d.valid.1.1
  unfold monthIndex
  omega

theorem monthIndex_lt (d : Date) : monthIndex d < 120000 := by
  have hyear : d.year ≤ 9999 := d.valid.1.2
  have hmonth := d.valid.2.1.2
  unfold monthIndex
  omega

theorem ordinal_lt_of_monthIndex {a b : Date} (h : monthIndex a < monthIndex b) : a.ordinal < b.ordinal := by
  have ha := a.valid.2.1
  have hb := b.valid.2.1
  unfold monthIndex at h
  rcases Nat.lt_or_ge a.year b.year with hy | hy
  · exact ordinal_lt_of_year hy
  · exact ordinal_lt_of_month (by omega) (by omega)

theorem le_of_monthIndex {a b : Date} (h : monthIndex a = monthIndex b) (hday : a.day ≤ b.day) : a ≤ b := by
  have ha := a.valid.2.1
  have hb := b.valid.2.1
  unfold monthIndex at h
  exact le_def.2 (.inr ⟨by omega, .inr ⟨by omega, hday⟩⟩)

theorem monthIndex_monthStart (d : Date) : monthIndex (monthStart d) = monthIndex d := rfl

theorem clampDay_some {y : Int} {m : Nat} (hy : 1 ≤ y ∧ y ≤ 9999) (hm : 1 ≤ m ∧ m ≤ 12) : ∀ day : Nat,
    ∃ e, clampDay y m day = some e ∧ (e.year : Int) = y ∧ e.month = m ∧ e.day ≤ max 1 day
  | 0 => by
    have hvalid : Calendar.Valid y.toNat m 1 := ⟨⟨by omega, by unfold maxYear; omega⟩, hm, Nat.le_refl 1, daysInMonth_pos _ _⟩
    obtain ⟨e, he⟩ := Option.isSome_iff_exists.1 (date?_isSome.2 hvalid)
    obtain ⟨hy', hm', hd⟩ := date?_eq_some.1 he
    exact ⟨e, he, hy', hm', Nat.le_of_eq hd⟩
  | day + 1 => by
    obtain ⟨e, he, hy', hm', hd⟩ := clampDay_some hy hm day
    unfold clampDay
    split
    · rename_i d hdate
      obtain ⟨hy', hm', hd⟩ := date?_eq_some.1 hdate
      exact ⟨d, rfl, hy', hm', by omega⟩
    · exact ⟨e, he, hy', hm', by omega⟩

theorem clampDay_year {y : Int} {m : Nat} {e : Date} : ∀ {day : Nat}, clampDay y m day = some e → (e.year : Int) = y
  | 0, h => (date?_eq_some.1 h).1
  | day + 1, h => by
    unfold clampDay at h
    split at h
    · rename_i d hdate
      cases h
      exact (date?_eq_some.1 hdate).1
    · exact clampDay_year h

theorem addMonths_some {d : Date} {k : Int} (h : 12 ≤ monthIndex d + k ∧ monthIndex d + k < 120000) :
    ∃ e, addMonths d k = some e ∧ (monthIndex e : Int) = monthIndex d + k ∧ e.day ≤ d.day := by
  obtain ⟨e, he, hy, hm, hd⟩ := clampDay_some (y := (monthIndex d + k) / 12) (m := ((monthIndex d + k) % 12).toNat + 1)
    (by omega) (by omega) d.day
  have hday := d.valid.2.2.1
  refine ⟨e, he, ?_, by omega⟩
  unfold monthIndex at *
  omega

theorem addMonths_isSome {d : Date} {k : Int} :
    (addMonths d k).isSome ↔ 12 ≤ monthIndex d + k ∧ monthIndex d + k < 120000 := by
  constructor
  · intro h
    obtain ⟨e, he⟩ := Option.isSome_iff_exists.1 h
    have hyear := clampDay_year he
    have hpos := e.valid.1.1
    have hle : e.year ≤ 9999 := e.valid.1.2
    omega
  · intro h
    obtain ⟨e, he, -⟩ := addMonths_some h
    exact Option.isSome_iff_exists.2 ⟨e, he⟩

theorem addMonths_eq_some {d e : Date} {k : Int} (h : addMonths d k = some e) :
    (monthIndex e : Int) = monthIndex d + k ∧ e.day ≤ d.day := by
  obtain ⟨e', he', hspec⟩ := addMonths_some (addMonths_isSome.1 (Option.isSome_iff_exists.2 ⟨e, h⟩))
  rw [h] at he'
  exact Option.some.inj he' ▸ hspec

/-! ## ranges of whole months -/

theorem addDays_pred {a b : Date} (h : a.ordinal < b.ordinal) : ∃ e, b.addDays (-1) = some e ∧ a ≤ e := by
  have hpos := a.ordinal_pos
  have hle := b.ordinal_le
  have hin : 1 ≤ (b.ordinal : Int) + -1 ∧ (b.ordinal : Int) + -1 ≤ maxOrdinal := by omega
  obtain ⟨e, he⟩ := Option.isSome_iff_exists.1 (addDays_isSome.2 hin)
  have hsum := addDays_eq_some.1 he
  exact ⟨e, he, le_iff_ordinal.2 (by omega)⟩

theorem monthsFrom_some {k : Int} {start next : Date} (hk : 0 < k) (h : addMonths start k = some next) :
    ∃ range, monthsFrom k start = some range ∧ range.start = start ∧ start ≤ range.stop := by
  have hindex := (addMonths_eq_some h).1
  obtain ⟨stop, hstop, hle⟩ := addDays_pred (ordinal_lt_of_monthIndex (a := start) (b := next) (by omega))
  refine ⟨⟨start, stop⟩, ?_, rfl, hle⟩
  unfold monthsFrom
  rw [h, Option.bind_some, hstop]
  rfl

theorem monthsFrom_isSome {k : Int} {start : Date} (hk : 0 < k) :
    (monthsFrom k start).isSome ↔ monthIndex start + k < 120000 := by
  have hge := monthIndex_ge start
  constructor
  · intro h
    by_contra hover
    have hnone : addMonths start k = none := by
      by_contra hne
      exact hover (addMonths_isSome.1 (Option.isSome_iff_ne_none.2 hne)).2
    rw [monthsFrom, hnone] at h
    cases h
  · intro h
    obtain ⟨next, hnext, -⟩ := addMonths_some (d := start) (k := k) ⟨by omega, h⟩
    obtain ⟨range, hrange, -⟩ := monthsFrom_some hk hnext
    exact Option.isSome_iff_exists.2 ⟨range, hrange⟩

theorem monthsFrom_ordered {k : Int} {start : Date} {range : DateRange} (hk : 0 < k) (h : monthsFrom k start = some range) :
    range.start = start ∧ start ≤ range.stop := by
  cases hnext : addMonths start k with
  | none =>
    rw [monthsFrom, hnext] at h
    cases h
  | some next =>
    obtain ⟨range', hrange', hspec⟩ := monthsFrom_some hk hnext
    rw [h] at hrange'
    exact Option.some.inj hrange' ▸ hspec

theorem quarterStart_some (today : Date) : ∃ start, quarterStart today = some start ∧
    monthIndex start = today.year * 12 + 3 * ((today.month - 1) / 3) := by
  have hmonth := today.valid.2.1
  have hvalid : Calendar.Valid (today.year : Int).toNat (3 * ((today.month - 1) / 3) + 1) 1 :=
    ⟨today.valid.1, ⟨by omega, by omega⟩, Nat.le_refl 1, daysInMonth_pos _ _⟩
  obtain ⟨start, hstart⟩ := Option.isSome_iff_exists.1 (date?_isSome.2 hvalid)
  obtain ⟨hy, hm, -⟩ := date?_eq_some.1 hstart
  refine ⟨start, hstart, ?_⟩
  unfold monthIndex
  omega

theorem isSome_bind {α β : Type} {o : Option α} {f : α → Option β} :
    (o.bind f).isSome ↔ ∃ x, o = some x ∧ (f x).isSome := by
  cases o with
  | none => exact ⟨fun h => absurd h (by simp), fun ⟨_, hx, _⟩ => absurd hx (by simp)⟩
  | some x => exact ⟨fun h => ⟨x, rfl, h⟩, fun ⟨_, hx, h⟩ => Option.some.inj hx ▸ h⟩

theorem firstOfYear_isSome {year : Int} : (date? year 1 1).isSome ↔ 1 ≤ year ∧ year ≤ 9999 := by
  rw [date?_isSome]
  unfold Calendar.Valid maxYear
  have hday := daysInMonth_pos year.toNat 1
  omega

theorem wholeYear_isSome {year : Int} : (wholeYear year).isSome ↔ 1 ≤ year ∧ year ≤ 9999 := by
  have hlast : (date? year 12 31).isSome ↔ 1 ≤ year ∧ year ≤ 9999 := by
    rw [date?_isSome]
    unfold Calendar.Valid maxYear
    have hday : Calendar.daysInMonth year.toNat 12 = 31 := rfl
    omega
  unfold wholeYear
  rw [isSome_bind]
  simp only [Option.isSome_map, hlast]
  refine ⟨fun ⟨_, _, h⟩ => h, fun h => ?_⟩
  obtain ⟨start, hstart⟩ := Option.isSome_iff_exists.1 (firstOfYear_isSome.2 h)
  exact ⟨start, hstart, h⟩

theorem wholeYear_ordered {year : Int} {range : DateRange} (h : wholeYear year = some range) : range.start ≤ range.stop := by
  obtain ⟨start, hstart, h⟩ := Option.bind_eq_some_iff.1 h
  obtain ⟨stop, hstop, rfl⟩ := Option.map_eq_some_iff.1 h
  obtain ⟨hy, hm, -⟩ := date?_eq_some.1 hstart
  obtain ⟨hy', hm', -⟩ := date?_eq_some.1 hstop
  have hle : start ≤ stop := le_def.2 (.inr ⟨by omega, .inl (by omega)⟩)
  exact hle

theorem monday_some (today : Date) : ∃ m, monday today = some m ∧ m.ordinal + today.weekday = today.ordinal := by
  have hpos := today.ordinal_pos
  have hle := today.ordinal_le
  have hweek : today.weekday = (today.ordinal + 6) % 7 := rfl
  have hin : 1 ≤ (today.ordinal : Int) + -today.weekday ∧ (today.ordinal : Int) + -today.weekday ≤ maxOrdinal := by omega
  obtain ⟨m, hm⟩ := Option.isSome_iff_exists.1 (addDays_isSome.2 hin)
  have hsum := addDays_eq_some.1 hm
  exact ⟨m, hm, by omega⟩

theorem weekFrom_isSome {m : Date} : (weekFrom m).isSome ↔ m.ordinal + 6 ≤ maxOrdinal := by
  unfold weekFrom
  rw [Option.isSome_map, addDays_isSome]
  omega

theorem weekFrom_ordered {m : Date} {range : DateRange} (h : weekFrom m = some range) : range.start ≤ range.stop := by
  obtain ⟨sunday, hsunday, rfl⟩ := Option.map_eq_some_iff.1 h
  have hsum := addDays_eq_some.1 hsunday
  exact le_iff_ordinal.2 (show m.ordinal ≤ sunday.ordinal by omega)

/-! ## each kind -/

/-- **Where the calendar goes as far as a relative date.** -/
def InDomain (n : Nat) (today : Date) : Kind → Prop
  | .daysAgo => n < today.ordinal
  | .monthsAgo | .lastMonths => n + 12 ≤ monthIndex today
  | .yearsAgo | .lastYears => n < today.year
  | .lastDays => n - 1 < today.ordinal
  | .today | .thisYear => True
  | .yesterday => 1 < today.ordinal
  | .dayBeforeYesterday => 2 < today.ordinal
  | .tomorrow => today.ordinal < maxOrdinal
  | .thisWeek => today.ordinal + 6 ≤ maxOrdinal + today.weekday
  | .lastWeek => today.weekday + 8 ≤ today.ordinal
  | .thisQuarter => ¬ (today.year = 9999 ∧ 10 ≤ today.month)
  | .lastQuarter => ¬ (today.year = 1 ∧ today.month ≤ 3)
  | .thisMonth => ¬ (today.year = 9999 ∧ today.month = 12)
  | .lastMonth => ¬ (today.year = 1 ∧ today.month = 1)
  | .nextMonth => ¬ (today.year = 9999 ∧ 11 ≤ today.month)
  | .lastYear => 1 < today.year
  | .yearBeforeLast => 2 < today.year

theorem resolve_isSome (n : Nat) (today : Date) (kind : Kind) : (resolve n today kind).isSome ↔ InDomain n today kind := by
  have hpos := today.ordinal_pos
  have hle := today.ordinal_le
  have hyear := today.valid.1
  have hmonth := today.valid.2.1
  have hindex := monthIndex_lt today
  unfold maxYear at hyear
  unfold maxOrdinal at hle
  cases kind with
  | daysAgo | lastDays | yesterday | dayBeforeYesterday | tomorrow =>
    simp only [resolve, InDomain, Option.isSome_map, addDays_isSome, maxOrdinal]
    omega
  | monthsAgo | lastMonths =>
    simp only [resolve, InDomain, Option.isSome_map, addMonths_isSome]
    omega
  | yearsAgo | lastYears =>
    simp only [resolve, InDomain, Option.isSome_map, firstOfYear_isSome]
    omega
  | today => exact ⟨fun _ => trivial, fun _ => rfl⟩
  | thisWeek =>
    obtain ⟨m, hm, hsum⟩ := monday_some today
    simp only [resolve, InDomain, hm, Option.bind_some, weekFrom_isSome]
    omega
  | lastWeek =>
    obtain ⟨m, hm, hsum⟩ := monday_some today
    have hweek : ∀ m', m.addDays (-7) = some m' → (weekFrom m').isSome := by
      intro m' hm'
      have hback := addDays_eq_some.1 hm'
      rw [weekFrom_isSome]
      unfold maxOrdinal
      omega
    simp only [resolve, InDomain, hm, Option.bind_some, isSome_bind]
    constructor
    · rintro ⟨m', hm', -⟩
      have hback := addDays_isSome.1 (Option.isSome_iff_exists.2 ⟨m', hm'⟩)
      omega
    · intro h
      have hin : 1 ≤ (m.ordinal : Int) + -7 ∧ (m.ordinal : Int) + -7 ≤ maxOrdinal := by
        unfold maxOrdinal
        omega
      obtain ⟨m', hm'⟩ := Option.isSome_iff_exists.1 (addDays_isSome.2 hin)
      exact ⟨m', hm', hweek m' hm'⟩
  | thisQuarter =>
    obtain ⟨start, hstart, hindex⟩ := quarterStart_some today
    simp only [resolve, InDomain, hstart, Option.bind_some, monthsFrom_isSome (show (0 : Int) < 3 by decide)]
    omega
  | lastQuarter =>
    obtain ⟨start, hstart, hindex⟩ := quarterStart_some today
    simp only [resolve, InDomain, hstart, Option.bind_some, isSome_bind, monthsFrom_isSome (show (0 : Int) < 3 by decide)]
    constructor
    · rintro ⟨e, he, -⟩
      have hin := addMonths_isSome.1 (Option.isSome_iff_exists.2 ⟨e, he⟩)
      omega
    · intro h
      obtain ⟨e, he, hback, -⟩ := addMonths_some (d := start) (k := -3) (by omega)
      exact ⟨e, he, by omega⟩
  | thisMonth =>
    simp only [resolve, InDomain, monthsFrom_isSome (show (0 : Int) < 1 by decide), monthIndex_monthStart]
    unfold monthIndex
    omega
  | lastMonth =>
    simp only [resolve, InDomain, isSome_bind, Option.isSome_map]
    constructor
    · rintro ⟨e, he, -⟩
      have hin := (addMonths_isSome.1 (Option.isSome_iff_exists.2 ⟨e, he⟩)).1
      rw [monthIndex_monthStart, monthIndex] at hin
      omega
    · intro h
      obtain ⟨e, he, hback, -⟩ := addMonths_some (d := monthStart today) (k := -1)
        (by rw [monthIndex_monthStart, monthIndex]; omega)
      obtain ⟨stop, hstop, -⟩ := addDays_pred (ordinal_lt_of_monthIndex (a := e) (b := monthStart today) (by omega))
      exact ⟨e, he, Option.isSome_iff_exists.2 ⟨stop, hstop⟩⟩
  | nextMonth =>
    simp only [resolve, InDomain, isSome_bind, monthsFrom_isSome (show (0 : Int) < 1 by decide)]
    constructor
    · rintro ⟨e, he, hnext⟩
      have hindex' := (addMonths_eq_some he).1
      rw [monthIndex_monthStart, monthIndex.eq_def today] at hindex'
      omega
    · intro h
      obtain ⟨e, he, hnext, -⟩ := addMonths_some (d := monthStart today) (k := 1)
        (by rw [monthIndex_monthStart, monthIndex]; omega)
      rw [monthIndex_monthStart, monthIndex.eq_def today] at hnext
      exact ⟨e, he, by omega⟩
  | thisYear =>
    simp only [resolve, InDomain, wholeYear_isSome, iff_true]
    omega
  | lastYear | yearBeforeLast =>
    simp only [resolve, InDomain, wholeYear_isSome]
    omega

theorem resolve_ordered {n : Nat} {today : Date} {kind : Kind} {range : DateRange}
    (h : resolve n today kind = some range) : range.start ≤ range.stop := by
  have hrefl : ∀ d : Date, d ≤ d := fun d => le_iff_ordinal.2 (Nat.le_refl _)
  cases kind with
  | daysAgo | yesterday | dayBeforeYesterday | tomorrow =>
    obtain ⟨d, -, rfl⟩ := Option.map_eq_some_iff.1 h
    exact hrefl d
  | today =>
    cases h
    exact hrefl today
  | monthsAgo | lastMonths =>
    obtain ⟨start, hstart, rfl⟩ := Option.map_eq_some_iff.1 h
    obtain ⟨hindex, hday⟩ := addMonths_eq_some hstart
    rcases Nat.lt_or_ge (monthIndex start) (monthIndex today) with hlt | hge
    · exact le_iff_ordinal.2 (Nat.le_of_lt (ordinal_lt_of_monthIndex hlt))
    · exact le_of_monthIndex (show monthIndex start = monthIndex today by omega) hday
  | yearsAgo | lastYears =>
    obtain ⟨start, hstart, rfl⟩ := Option.map_eq_some_iff.1 h
    obtain ⟨hy, hm, hd⟩ := date?_eq_some.1 hstart
    have hvalid := today.valid
    unfold Calendar.Valid at hvalid
    have hle : start ≤ today := le_def.2 (by omega)
    exact hle
  | lastDays =>
    obtain ⟨start, hstart, rfl⟩ := Option.map_eq_some_iff.1 h
    have hsum := addDays_eq_some.1 hstart
    exact le_iff_ordinal.2 (show start.ordinal ≤ today.ordinal by omega)
  | thisWeek | lastWeek =>
    obtain ⟨m, -, h⟩ := Option.bind_eq_some_iff.1 h
    exact weekFrom_ordered h
  | thisQuarter | lastQuarter | nextMonth =>
    obtain ⟨start, -, h⟩ := Option.bind_eq_some_iff.1 h
    obtain ⟨rfl, hle⟩ := monthsFrom_ordered (by decide) h
    exact hle
  | thisMonth =>
    obtain ⟨hstart, hle⟩ := monthsFrom_ordered (by decide) h
    exact hstart ▸ hle
  | lastMonth =>
    obtain ⟨start, hstart, h⟩ := Option.bind_eq_some_iff.1 h
    obtain ⟨stop, hstop, rfl⟩ := Option.map_eq_some_iff.1 h
    have hindex := (addMonths_eq_some hstart).1
    obtain ⟨stop', hstop', hle⟩ := addDays_pred (ordinal_lt_of_monthIndex (a := start) (b := monthStart today) (by omega))
    rw [hstop] at hstop'
    exact Option.some.inj hstop' ▸ hle
  | thisYear | lastYear | yearBeforeLast => exact wholeYear_ordered h

end Query
end MyGpt
