import Mathlib.Data.List.Basic
/-!
# Calendar — the dates of the years 1 to 9999

The proleptic Gregorian calendar: a date is valid, dates are ordered by year, month and day, and their ordinals count the
days from the first one on (`le_iff_ordinal`).  An ordinal of the calendar is that of one date (`ofOrdinal?_eq_some`), so
days can be added as long as the calendar goes.
-/
namespace Calendar

def maxYear : Nat := 9999

def isLeap (y : Nat) : Bool := y % 4 == 0 && (y % 100 != 0 || y % 400 == 0)

def daysInMonth (y m : Nat) : Nat :=
  if m = 2 then (if isLeap y then 29 else 28) else if m = 4 ∨ m = 6 ∨ m = 9 ∨ m = 11 then 30 else 31

theorem daysInMonth_pos (y m : Nat) : 1 ≤ daysInMonth y m := by
  unfold daysInMonth
  split
  · split <;> decide
  · split <;> decide

def Valid (y m d : Nat) : Prop := (1 ≤ y ∧ y ≤ maxYear) ∧ (1 ≤ m ∧ m ≤ 12) ∧ 1 ≤ d ∧ d ≤ daysInMonth y m

instance (y m d : Nat) : Decidable (Valid y m d) := inferInstanceAs (Decidable (_ ∧ _ ∧ _ ∧ _))

@[ext] structure Date where
  year : Nat
  month : Nat
  day : Nat
  valid : Valid year month day
  deriving DecidableEq

def date? (y : Int) (m d : Nat) : Option Date := if h : Valid y.toNat m d then some ⟨y.toNat, m, d, h⟩ else none

theorem date?_eq_some {y : Int} {m d : Nat} {e : Date} :
    date? y m d = some e ↔ (e.year : Int) = y ∧ e.month = m ∧ e.day = d := by
  have hyear := e.valid.1.1
  unfold date?
  constructor
  · intro h
    split at h
    · rename_i hvalid
      have hpos := hvalid.1.1
      cases h
      exact ⟨Int.toNat_of_nonneg (by omega), rfl, rfl⟩
    · cases h
  · rintro ⟨hy, rfl, rfl⟩
    have hy' : y.toNat = e.year := by omega
    have hvalid : Valid y.toNat e.month e.day := by rw [hy']; exact e.valid
    rw [dif_pos hvalid]
    exact congrArg some (Date.ext hy' rfl rfl)

theorem date?_isSome {y : Int} {m d : Nat} : (date? y m d).isSome ↔ Valid y.toNat m d := by
  unfold date?
  split
  · rename_i h
    exact ⟨fun _ => h, fun _ => rfl⟩
  · rename_i h
    exact ⟨fun hsome => absurd hsome (by simp), fun hvalid => absurd hvalid h⟩

/-! ## the order -/

instance : LE Date :=
  ⟨fun a b => a.year < b.year ∨ (a.year = b.year ∧ (a.month < b.month ∨ (a.month = b.month ∧ a.day ≤ b.day)))⟩

instance (a b : Date) : Decidable (a ≤ b) := inferInstanceAs (Decidable (_ ∨ _))

theorem le_def {a b : Date} :
    a ≤ b ↔ a.year < b.year ∨ (a.year = b.year ∧ (a.month < b.month ∨ (a.month = b.month ∧ a.day ≤ b.day))) := Iff.rfl

/-! ## days before a year and a month -/

def yearLength (y : Nat) : Nat := if isLeap y then 366 else 365

def daysBeforeYear (y : Nat) : Nat := (y - 1) * 365 + (y - 1) / 4 - (y - 1) / 100 + (y - 1) / 400

def daysBeforeMonth (y : Nat) : Nat → Nat
  | 0 => 0
  | 1 => 0
  | m + 2 => daysBeforeMonth y (m + 1) + daysInMonth y (m + 1)

theorem isLeap_iff {y : Nat} : isLeap y = true ↔ y % 4 = 0 ∧ (y % 100 ≠ 0 ∨ y % 400 = 0) := by
  simp [isLeap]

theorem daysBeforeYear_succ {y : Nat} (h : 1 ≤ y) : daysBeforeYear (y + 1) = daysBeforeYear y + yearLength y := by
  obtain ⟨z, rfl⟩ : ∃ z, y = z + 1 := ⟨y - 1, by omega⟩
  have hleap := isLeap_iff (y := z + 1)
  -- one more fourth, hundredth and four hundredth where it divides the year
  have h4 := Nat.succ_div (a := z) (b := 4)
  have h100 := Nat.succ_div (a := z) (b := 100)
  have h400 := Nat.succ_div (a := z) (b := 400)
  have hle : z / 100 ≤ z / 4 := Nat.div_le_div_left (by decide) (by decide)
  unfold daysBeforeYear yearLength
  rw [Nat.add_sub_cancel, Nat.add_sub_cancel, h4, h100, h400]
  simp only [Nat.dvd_iff_mod_eq_zero]
  by_cases h4 : (z + 1) % 4 = 0
  · by_cases h100 : (z + 1) % 100 = 0
    · by_cases h400 : (z + 1) % 400 = 0
      · rw [if_pos h4, if_pos h100, if_pos h400, if_pos (hleap.2 ⟨h4, .inr h400⟩)]
        omega
      · rw [if_pos h4, if_pos h100, if_neg h400, if_neg (fun h => (hleap.1 h).2.elim (· h100) h400)]
        omega
    · have h400 : (z + 1) % 400 ≠ 0 := by omega
      rw [if_pos h4, if_neg h100, if_neg h400, if_pos (hleap.2 ⟨h4, .inl h100⟩)]
      omega
  · have h100 : (z + 1) % 100 ≠ 0 := by omega
    have h400 : (z + 1) % 400 ≠ 0 := by omega
    rw [if_neg h4, if_neg h100, if_neg h400, if_neg (fun h => h4 (hleap.1 h).1)]
    omega

theorem daysBeforeYear_le {y z : Nat} (h : 1 ≤ y) (hlt : y < z) : daysBeforeYear y + yearLength y ≤ daysBeforeYear z := by
  induction hlt with
  | refl => exact Nat.le_of_eq (daysBeforeYear_succ h).symm
  | @step z hz ih =>
    rw [daysBeforeYear_succ (Nat.le_trans h (Nat.le_of_lt hz))]
    exact Nat.le_trans ih (Nat.le_add_right _ _)

theorem daysBeforeMonth_succ (y : Nat) {m : Nat} (h : 1 ≤ m) :
    daysBeforeMonth y (m + 1) = daysBeforeMonth y m + daysInMonth y m := by
  cases m with
  | zero => exact absurd h (Nat.not_succ_le_zero 0)
  | succ m => rfl

theorem daysBeforeMonth_le {y m n : Nat} (h : 1 ≤ m) (hlt : m < n) :
    daysBeforeMonth y m + daysInMonth y m ≤ daysBeforeMonth y n := by
  induction hlt with
  | refl => exact Nat.le_of_eq (daysBeforeMonth_succ y h).symm
  | @step n hn ih =>
    rw [daysBeforeMonth_succ y (Nat.le_trans h (Nat.le_of_lt hn))]
    exact Nat.le_trans ih (Nat.le_add_right _ _)

theorem daysBeforeMonth_year (y : Nat) : daysBeforeMonth y 13 = yearLength y := by
  simp only [daysBeforeMonth, daysInMonth, yearLength]
  cases isLeap y <;> rfl

/-! ## ordinals -/

/-- `date.toordinal`: the days from the first one of the calendar on. -/
def Date.ordinal (d : Date) : Nat := daysBeforeYear d.year + daysBeforeMonth d.year d.month + d.day

def maxOrdinal : Nat := 3652059

theorem Date.ordinal_pos (d : Date) : 1 ≤ d.ordinal := Nat.le_trans d.valid.2.2.1 (Nat.le_add_left _ _)

theorem Date.dayOfYear_le (d : Date) : daysBeforeMonth d.year d.month + d.day ≤ yearLength d.year := by
  obtain ⟨-, ⟨hpos, hle⟩, -, hday⟩ := d.valid
  have hmonth : daysBeforeMonth d.year d.month + daysInMonth d.year d.month ≤ daysBeforeMonth d.year 13 :=
    daysBeforeMonth_le hpos (Nat.lt_succ_of_le hle)
  rw [daysBeforeMonth_year] at hmonth
  omega

theorem Date.ordinal_le (d : Date) : d.ordinal ≤ maxOrdinal := by
  have hyear : daysBeforeYear d.year + yearLength d.year ≤ daysBeforeYear 10000 :=
    daysBeforeYear_le d.valid.1.1 (Nat.lt_succ_of_le d.valid.1.2)
  have hday := d.dayOfYear_le
  have hmax : daysBeforeYear 10000 = maxOrdinal := rfl
  unfold Date.ordinal
  omega

theorem ordinal_lt_of_year {a b : Date} (h : a.year < b.year) : a.ordinal < b.ordinal := by
  have hyear := daysBeforeYear_le a.valid.1.1 h
  have hday := a.dayOfYear_le
  have hpos := b.valid.2.2.1
  unfold Date.ordinal
  omega

theorem ordinal_lt_of_month {a b : Date} (hyear : a.year = b.year) (h : a.month < b.month) : a.ordinal < b.ordinal := by
  have hmonth : daysBeforeMonth a.year a.month + daysInMonth a.year a.month ≤ daysBeforeMonth a.year b.month :=
    daysBeforeMonth_le a.valid.2.1.1 h
  have hday := a.valid.2.2.2
  have hpos := b.valid.2.2.1
  unfold Date.ordinal
  rw [← hyear]
  omega

theorem ordinal_day {a b : Date} (hyear : a.year = b.year) (hmonth : a.month = b.month) :
    a.ordinal + b.day = b.ordinal + a.day := by
  unfold Date.ordinal
  rw [hyear, hmonth]
  omega

theorem le_iff_ordinal {a b : Date} : a ≤ b ↔ a.ordinal ≤ b.ordinal := by
  rw [le_def]
  rcases Nat.lt_trichotomy a.year b.year with hy | hy | hy
  · exact ⟨fun _ => Nat.le_of_lt (ordinal_lt_of_year hy), fun _ => .inl hy⟩
  · rcases Nat.lt_trichotomy a.month b.month with hm | hm | hm
    · exact ⟨fun _ => Nat.le_of_lt (ordinal_lt_of_month hy hm), fun _ => .inr ⟨hy, .inl hm⟩⟩
    · have hday := ordinal_day hy hm
      omega
    · have hlt := ordinal_lt_of_month hy.symm hm
      omega
  · have hlt := ordinal_lt_of_year hy
    omega

theorem ordinal_inj {a b : Date} (h : a.ordinal = b.ordinal) : a = b := by
  have hle := le_def.1 (le_iff_ordinal.2 (Nat.le_of_eq h))
  have hge := le_def.1 (le_iff_ordinal.2 (Nat.le_of_eq h.symm))
  exact Date.ext (by omega) (by omega) (by omega)

/-- The month and the day of the `d`-th day from a month on; the months left are fuel enough. -/
def monthDay (y : Nat) : Nat → Nat → Nat → Nat × Nat
  | 0, m, d => (m, d)
  | fuel + 1, m, d => if d ≤ daysInMonth y m then (m, d) else monthDay y fuel (m + 1) (d - daysInMonth y m)

/-- The year of the day `k` (from 0) and which of its days it is: cycles of 400, 100, 4 years and one. -/
def yearDay (k : Nat) : Nat × Nat :=
  let n100 := min 3 (k % 146097 / 36524)
  let r100 := k % 146097 - 36524 * n100
  let n1 := min 3 (r100 % 1461 / 365)
  (400 * (k / 146097) + 100 * n100 + 4 * (r100 / 1461) + n1 + 1, r100 % 1461 - 365 * n1 + 1)

/-- `date.fromordinal`. -/
def ofOrdinal? (n : Int) : Option Date :=
  if 1 ≤ n ∧ n ≤ maxOrdinal then
    let year := yearDay (n.toNat - 1)
    let month := monthDay year.1 11 1 year.2
    date? year.1 month.1 month.2
  else none

/-- `d + timedelta(days=n)`; nothing beyond the calendar. -/
def Date.addDays (d : Date) (n : Int) : Option Date := ofOrdinal? (d.ordinal + n)

/-- `date.weekday()`: 0 on a Monday. -/
def Date.weekday (d : Date) : Nat := (d.ordinal + 6) % 7

theorem monthDay_spec (y : Nat) : ∀ (fuel m d : Nat), 1 ≤ m → m + fuel = 12 → 1 ≤ d →
    daysBeforeMonth y m + d ≤ yearLength y →
    (1 ≤ (monthDay y fuel m d).1 ∧ (monthDay y fuel m d).1 ≤ 12) ∧
      (1 ≤ (monthDay y fuel m d).2 ∧ (monthDay y fuel m d).2 ≤ daysInMonth y (monthDay y fuel m d).1) ∧
      daysBeforeMonth y (monthDay y fuel m d).1 + (monthDay y fuel m d).2 = daysBeforeMonth y m + d
  | 0, m, d, hm, hfuel, hd, hle => by
    have hlast := daysBeforeMonth_succ y hm
    rw [show m + 1 = 13 by omega, daysBeforeMonth_year] at hlast
    refine ⟨⟨hm, Nat.le_of_eq hfuel⟩, ⟨hd, ?_⟩, rfl⟩
    show d ≤ daysInMonth y m
    omega
  | fuel + 1, m, d, hm, hfuel, hd, hle => by
    unfold monthDay
    split
    · rename_i hin
      exact ⟨⟨hm, by omega⟩, ⟨hd, hin⟩, rfl⟩
    · rename_i hover
      have hsucc := daysBeforeMonth_succ y hm
      have ih := monthDay_spec y fuel (m + 1) (d - daysInMonth y m) (by omega) (by omega) (by omega) (by omega)
      refine ⟨ih.1, ih.2.1, ?_⟩
      rw [ih.2.2]
      omega

theorem daysBeforeYear_cycle {a b c d : Nat} (hb : b ≤ 3) (hc : c ≤ 24) (hd : d ≤ 3) :
    daysBeforeYear (400 * a + 100 * b + 4 * c + d + 1) = 146097 * a + 36524 * b + 1461 * c + 365 * d := by
  have h4 : (400 * a + 100 * b + 4 * c + d) / 4 = 100 * a + 25 * b + c := by omega
  have h100 : (400 * a + 100 * b + 4 * c + d) / 100 = 4 * a + b := by omega
  have h400 : (400 * a + 100 * b + 4 * c + d) / 400 = a := by omega
  unfold daysBeforeYear
  rw [Nat.add_sub_cancel, h4, h100, h400]
  omega

theorem yearLength_cycle {a b c d : Nat} (hb : b ≤ 3) (hc : c ≤ 24) (hd : d ≤ 3) :
    yearLength (400 * a + 100 * b + 4 * c + d + 1) = if d = 3 ∧ (c ≠ 24 ∨ b = 3) then 366 else 365 := by
  have h4 : (400 * a + 100 * b + 4 * c + d + 1) % 4 = 0 ↔ d = 3 := by omega
  have h100 : (400 * a + 100 * b + 4 * c + d + 1) % 100 = 0 ↔ c = 24 ∧ d = 3 := by omega
  have h400 : (400 * a + 100 * b + 4 * c + d + 1) % 400 = 0 ↔ b = 3 ∧ c = 24 ∧ d = 3 := by omega
  unfold yearLength
  simp only [isLeap_iff, ne_eq, h4, h100, h400]
  refine if_congr ?_ rfl rfl
  omega

theorem yearDay_spec (k : Nat) : (1 ≤ (yearDay k).2 ∧ (yearDay k).2 ≤ yearLength (yearDay k).1) ∧
    1 ≤ (yearDay k).1 ∧ daysBeforeYear (yearDay k).1 + (yearDay k).2 = k + 1 := by
  unfold yearDay
  dsimp only
  have hr := Nat.mod_lt k (show 0 < 146097 by decide)
  have hk := Nat.div_add_mod k 146097
  generalize k % 146097 = r at hr hk ⊢
  generalize hb : min 3 (r / 36524) = b
  have hb3 : b ≤ 3 := by omega
  have hbr : 36524 * b ≤ r := by omega
  have hrest : r - 36524 * b < 36524 ∨ (b = 3 ∧ r - 36524 * b ≤ 36524) := by omega
  generalize hr100 : r - 36524 * b = r100 at hrest ⊢
  have hc24 : r100 / 1461 ≤ 24 := by omega
  have hr4 := Nat.mod_lt r100 (show 0 < 1461 by decide)
  have hc := Nat.div_add_mod r100 1461
  generalize r100 / 1461 = c at hc24 hc ⊢
  generalize r100 % 1461 = r4 at hr4 hc ⊢
  generalize hd : min 3 (r4 / 365) = d
  have hd3 : d ≤ 3 := by omega
  have hdr : 365 * d ≤ r4 := by omega
  have hday : r4 - 365 * d < 365 ∨ (d = 3 ∧ r4 - 365 * d ≤ 365) := by omega
  rw [yearLength_cycle hb3 hc24 hd3, daysBeforeYear_cycle hb3 hc24 hd3]
  refine ⟨⟨Nat.le_add_left 1 _, ?_⟩, Nat.le_add_left 1 _, ?_⟩
  · split
    · omega
    · omega
  · omega

theorem ofOrdinal?_some {n : Int} (h : 1 ≤ n ∧ n ≤ maxOrdinal) : ∃ d, ofOrdinal? n = some d ∧ (d.ordinal : Int) = n := by
  obtain ⟨hday, hyear, hsum⟩ := yearDay_spec (n.toNat - 1)
  unfold ofOrdinal?
  rw [if_pos h]
  dsimp only
  generalize yearDay (n.toNat - 1) = year at hday hyear hsum ⊢
  have hspec := monthDay_spec year.1 11 1 year.2 (Nat.le_refl 1) rfl hday.1
    (Nat.le_trans (Nat.le_of_eq (Nat.zero_add year.2)) hday.2)
  generalize monthDay year.1 11 1 year.2 = month at hspec ⊢
  have hmax : year.1 ≤ maxYear := by
    -- the first day behind the last year is not a day of the calendar
    by_contra hover
    have hlong : daysBeforeYear 9999 + yearLength 9999 ≤ daysBeforeYear year.1 :=
      daysBeforeYear_le (by decide) (Nat.lt_of_not_le hover)
    have hlast : daysBeforeYear 9999 + yearLength 9999 = maxOrdinal := rfl
    omega
  have hvalid : Valid year.1 month.1 month.2 := ⟨⟨hyear, hmax⟩, hspec.1, hspec.2.1⟩
  refine ⟨⟨year.1, month.1, month.2, hvalid⟩, date?_eq_some.2 ⟨rfl, rfl, rfl⟩, ?_⟩
  unfold Date.ordinal
  dsimp only
  have hbegin : daysBeforeMonth year.1 1 = 0 := rfl
  omega

theorem ofOrdinal?_eq_some {n : Int} {d : Date} : ofOrdinal? n = some d ↔ (d.ordinal : Int) = n := by
  have hpos := d.ordinal_pos
  have hle := d.ordinal_le
  by_cases h : 1 ≤ n ∧ n ≤ maxOrdinal
  · obtain ⟨e, he, hn⟩ := ofOrdinal?_some h
    rw [he, Option.some.injEq]
    exact ⟨fun hed => hed ▸ hn, fun hd => ordinal_inj (by omega)⟩
  · refine ⟨fun hd => ?_, fun hn => absurd (show 1 ≤ n ∧ n ≤ maxOrdinal by omega) h⟩
    unfold ofOrdinal? at hd
    rw [if_neg h] at hd
    cases hd

theorem addDays_eq_some {d e : Date} {n : Int} : d.addDays n = some e ↔ (e.ordinal : Int) = d.ordinal + n :=
  ofOrdinal?_eq_some

theorem addDays_isSome {d : Date} {n : Int} : (d.addDays n).isSome ↔ 1 ≤ d.ordinal + n ∧ d.ordinal + n ≤ maxOrdinal := by
  constructor
  · intro h
    obtain ⟨e, he⟩ := Option.isSome_iff_exists.1 h
    have hsum := addDays_eq_some.1 he
    have hpos := e.ordinal_pos
    have hle := e.ordinal_le
    omega
  · intro h
    obtain ⟨e, he, -⟩ := ofOrdinal?_some h
    exact Option.isSome_iff_exists.2 ⟨e, he⟩

end Calendar
