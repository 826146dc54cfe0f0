import Mathlib.Data.List.Basic
/-!
# Rfc4180 — records of comma-separated fields, read back

A reader of RFC 4180: a field is bare, or quoted with its quotes doubled; a record ends at a line feed, before which there
may be a carriage return, and the line feed after the last record may be missing.  A writer that quotes the fields that hold
a sign is read back (`records_file`), but for two things no such text can tell: a record of no field is one empty field, and
where that is the last there is no record.
-/
namespace MyGpt
namespace Rfc4180

variable {α : Type} [DecidableEq α]

structure Signs (α : Type) where
  quote : α
  comma : α
  lf : α
  cr : α
  distinct : quote ≠ comma ∧ quote ≠ lf ∧ quote ≠ cr ∧ comma ≠ lf ∧ comma ≠ cr ∧ lf ≠ cr

/-! ## the reader -/

inductive Place
  | start
  | bare
  | quoted
  | closed
  deriving DecidableEq

def records (s : Signs α) : Place → List α → List (List α) → List α → Option (List (List (List α)))
  | .quoted, _, _, [] => none
  | place, field, record, [] => if place = .start ∧ record = [] then some [] else some [record ++ [field]]
  | .quoted, field, record, c :: rest =>
    if c = s.quote then records s .closed field record rest else records s .quoted (field ++ [c]) record rest
  | place, field, record, c :: rest =>
    if c = s.comma then records s .start [] (record ++ [field]) rest
    else if c = s.lf then (records s .start [] [] rest).map ((record ++ [field]) :: ·)
    else if c = s.cr then if rest.head? = some s.lf then records s place field record rest else none
    else if c = s.quote then
      match place with
      | .start => records s .quoted field record rest
      | .closed => records s .quoted (field ++ [c]) record rest
      | _ => none
    else if place = .closed then none else records s .bare (field ++ [c]) record rest

def read (s : Signs α) (text : List α) : Option (List (List (List α))) := records s .start [] [] text

/-! ## the writer -/

variable (s : Signs α)

def Signs.special (c : α) : Bool := c = s.quote || c = s.comma || c = s.lf || c = s.cr

def Signs.doubled (field : List α) : List α := field.flatMap (fun c => if c = s.quote then [c, c] else [c])

def Signs.write (field : List α) : List α :=
  if field.any s.special then s.quote :: s.doubled field ++ [s.quote] else field

def Signs.line (record : List (List α)) : List α := [s.comma].intercalate (record.map s.write)

def Signs.file (rows : List (List (List α))) : List α := [s.lf].intercalate (rows.map s.line)

/-! ## a field is read back -/

theorem records_cons {place : Place} (hplace : place ≠ .quoted) (field : List α) (record : List (List α)) (c : α)
    (rest : List α) : records s place field record (c :: rest) =
      if c = s.comma then records s .start [] (record ++ [field]) rest
      else if c = s.lf then (records s .start [] [] rest).map ((record ++ [field]) :: ·)
      else if c = s.cr then if rest.head? = some s.lf then records s place field record rest else none
      else if c = s.quote then
        match place with
        | .start => records s .quoted field record rest
        | .closed => records s .quoted (field ++ [c]) record rest
        | _ => none
      else if place = .closed then none else records s .bare (field ++ [c]) record rest := by
  cases place with
  | quoted => exact absurd rfl hplace
  | _ => rfl

theorem records_quote {place : Place} (hplace : place ≠ .quoted) (field : List α) (record : List (List α)) (rest : List α) :
    records s place field record (s.quote :: rest) =
      match place with
      | .start => records s .quoted field record rest
      | .closed => records s .quoted (field ++ [s.quote]) record rest
      | _ => none := by
  obtain ⟨hcomma, hlf, hcr, -⟩ := s.distinct
  rw [records_cons s hplace, if_neg hcomma, if_neg hlf, if_neg hcr, if_pos rfl]

theorem records_plain {place : Place} (hplace : place = .start ∨ place = .bare) (field : List α) (record : List (List α))
    {c : α} (hc : s.special c = false) (rest : List α) :
    records s place field record (c :: rest) = records s .bare (field ++ [c]) record rest := by
  obtain ⟨⟨⟨hquote, hcomma⟩, hlf⟩, hcr⟩ : ((¬ c = s.quote ∧ ¬ c = s.comma) ∧ ¬ c = s.lf) ∧ ¬ c = s.cr := by
    simpa [Signs.special] using hc
  have hopen : place ≠ .closed ∧ place ≠ .quoted := by rcases hplace with rfl | rfl <;> decide
  rw [records_cons s hopen.2, if_neg hcomma, if_neg hlf, if_neg hcr, if_neg hquote, if_neg hopen.1]

theorem records_doubled (record : List (List α)) (rest : List α) : ∀ field acc : List α,
    records s .quoted acc record (s.doubled field ++ s.quote :: rest) = records s .closed (acc ++ field) record rest
  | [], acc => by
    rw [List.append_nil]
    exact if_pos rfl
  | c :: field, acc => by
    have ih := records_doubled record rest field (acc ++ [c])
    rw [List.append_assoc, List.singleton_append] at ih
    rw [← ih]
    by_cases hquote : c = s.quote
    · subst hquote
      have htwice : s.doubled (s.quote :: field) = s.quote :: s.quote :: s.doubled field := by simp [Signs.doubled]
      rw [htwice, List.cons_append, List.cons_append, records, if_pos rfl, records_quote s (by decide)]
    · have honce : s.doubled (c :: field) = c :: s.doubled field := by simp [Signs.doubled, hquote]
      rw [honce, List.cons_append, records, if_neg hquote]

theorem records_bare (record : List (List α)) (rest : List α) : ∀ (field acc : List α) {place : Place},
    place = .start ∨ place = .bare → field.any s.special = false → field ≠ [] →
      records s place acc record (field ++ rest) = records s .bare (acc ++ field) record rest
  | [], _, _, _, _, h => absurd rfl h
  | c :: field, acc, place, hplace, hplain, _ => by
    rw [List.any_cons, Bool.or_eq_false_iff] at hplain
    rw [List.cons_append, records_plain s hplace acc record hplain.1]
    cases field with
    | nil => rfl
    | cons d field =>
      rw [records_bare record rest (d :: field) (acc ++ [c]) (.inr rfl) hplain.2 (List.cons_ne_nil d field),
        List.append_assoc, List.singleton_append]

theorem records_write (field : List α) : ∃ place, place ≠ .quoted ∧ (place = .start ↔ s.write field = []) ∧
    ∀ record rest, records s .start [] record (s.write field ++ rest) = records s place field record rest := by
  unfold Signs.write
  split
  · refine ⟨.closed, by decide, ⟨nofun, nofun⟩, fun record rest => ?_⟩
    rw [List.cons_append, List.cons_append, List.append_assoc, List.singleton_append, records_quote s (by decide)]
    exact records_doubled s record rest field []
  · rename_i hplain
    rw [Bool.not_eq_true] at hplain
    by_cases hempty : field = []
    · subst hempty
      exact ⟨.start, by decide, ⟨fun _ => rfl, fun _ => rfl⟩, fun _ _ => rfl⟩
    · exact ⟨.bare, by decide, ⟨nofun, fun h => absurd h hempty⟩,
        fun record rest => records_bare s record rest field [] (.inl rfl) hplain hempty⟩

section

variable {place : Place} (hplace : place ≠ .quoted) (field : List α) (record : List (List α))

include hplace

theorem records_comma (rest : List α) :
    records s place field record (s.comma :: rest) = records s .start [] (record ++ [field]) rest := by
  rw [records_cons s hplace, if_pos rfl]

theorem records_lf (rest : List α) :
    records s place field record (s.lf :: rest) = (records s .start [] [] rest).map ((record ++ [field]) :: ·) := by
  rw [records_cons s hplace, if_neg s.distinct.2.2.2.1.symm, if_pos rfl]

theorem records_nil :
    records s place field record [] = if place = .start ∧ record = [] then some [] else some [record ++ [field]] := by
  cases place with
  | quoted => exact absurd rfl hplace
  | _ => rfl

end

/-! ## a record is read back -/

theorem line_cons (field : List α) {more : List (List α)} (h : more ≠ []) :
    s.line (field :: more) = s.write field ++ s.comma :: s.line more := by
  unfold Signs.line
  rw [List.map_cons, List.intercalate_cons_of_ne_nil (by simpa using h)]
  simp

theorem records_line (rest : List α) : ∀ (fields record : List (List α)), fields ≠ [] →
    records s .start [] record (s.line fields ++ s.lf :: rest) =
      (records s .start [] [] rest).map ((record ++ fields) :: ·)
  | [], _, h => absurd rfl h
  | [field], record, _ => by
    obtain ⟨place, hplace, -, hread⟩ := records_write s field
    have hline : s.line [field] = s.write field := List.intercalate_singleton
    rw [hline, hread, records_lf s hplace]
  | field :: next :: more, record, _ => by
    obtain ⟨place, hplace, -, hread⟩ := records_write s field
    rw [line_cons s field (List.cons_ne_nil next more), List.append_assoc, hread, List.cons_append,
      records_comma s hplace, records_line rest (next :: more) (record ++ [field]) (List.cons_ne_nil next more),
      List.append_assoc, List.singleton_append]

/-- **The last line**: where it is empty and nothing was read of a record, there is none. -/
theorem records_last : ∀ (fields record : List (List α)), fields ≠ [] →
    records s .start [] record (s.line fields) =
      if s.line fields = [] ∧ record = [] then some [] else some [record ++ fields]
  | [], _, h => absurd rfl h
  | [field], record, _ => by
    obtain ⟨place, hplace, hstart, hread⟩ := records_write s field
    have hline : s.line [field] = s.write field := List.intercalate_singleton
    have hread := hread record []
    rw [List.append_nil] at hread
    rw [hline, hread, records_nil s hplace]
    exact if_congr (and_congr_left' hstart) rfl rfl
  | field :: next :: more, record, _ => by
    obtain ⟨place, hplace, -, hread⟩ := records_write s field
    have hne : record ++ [field] ≠ [] := List.append_ne_nil_of_right_ne_nil _ (List.cons_ne_nil _ _)
    rw [line_cons s field (List.cons_ne_nil next more), hread, records_comma s hplace,
      records_last (next :: more) (record ++ [field]) (List.cons_ne_nil next more), if_neg (fun h => hne h.2), if_neg (by simp),
      List.append_assoc, List.singleton_append]

/-! ## a file is read back -/

def filled (record : List (List α)) : List (List α) := if record = [] then [[]] else record

omit [DecidableEq α] in
theorem filled_ne_nil (record : List (List α)) : filled record ≠ [] := by
  unfold filled
  split
  · exact List.cons_ne_nil _ _
  · assumption

theorem line_filled (record : List (List α)) : s.line (filled record) = s.line record := by
  unfold filled
  split
  · rename_i hempty
    rw [hempty]
    rfl
  · rfl

theorem line_eq_nil {record : List (List α)} : s.line record = [] ↔ filled record = [[]] := by
  rw [← line_filled]
  cases hrow : filled record with
  | nil => exact absurd hrow (filled_ne_nil record)
  | cons field more =>
    cases more with
    | nil =>
      have hline : s.line [field] = s.write field := List.intercalate_singleton
      rw [hline, List.singleton_inj, Signs.write]
      split
      · rename_i hany
        refine ⟨nofun, fun hempty => ?_⟩
        rw [hempty] at hany
        cases hany
      · rfl
    | cons next more =>
      rw [line_cons s field (List.cons_ne_nil next more)]
      simp

def kept (rows : List (List (List α))) : List (List (List α)) := if rows.getLast? = some [[]] then rows.dropLast else rows

theorem kept_cons (row next : List (List α)) (more : List (List (List α))) :
    kept (row :: next :: more) = row :: kept (next :: more) := by
  unfold kept
  rw [List.getLast?_cons_cons, List.dropLast_cons_cons]
  split <;> rfl

theorem records_file : ∀ rows : List (List (List α)), rows ≠ [] → read s (s.file rows) = some (kept (rows.map filled))
  | [], h => absurd rfl h
  | [row], _ => by
    have hfile : s.file [row] = s.line (filled row) := by
      rw [line_filled]
      exact List.intercalate_singleton
    rw [read, hfile, records_last s _ _ (filled_ne_nil row), line_filled]
    unfold kept
    by_cases hempty : filled row = [[]]
    · simp [hempty, (line_eq_nil s).2 hempty]
    · have hline : s.line row ≠ [] := fun h => hempty ((line_eq_nil s).1 h)
      simp [hempty, hline]
  | row :: next :: more, _ => by
    have ih := records_file (next :: more) (List.cons_ne_nil next more)
    have hfile : s.file (row :: next :: more) = s.line (filled row) ++ s.lf :: s.file (next :: more) := by
      rw [line_filled, Signs.file, List.map_cons, List.intercalate_cons_of_ne_nil (by simp)]
      simp [Signs.file]
    rw [read] at ih ⊢
    rw [hfile, records_line s _ _ _ (filled_ne_nil row), ih]
    exact congrArg some (kept_cons (filled row) (filled next) (more.map filled)).symm

/-- **Exactly when** the records themselves are: every one has a field, and the last is not a single empty one. -/
theorem read_file_iff {rows : List (List (List α))} (h : rows ≠ []) :
    read s (s.file rows) = some rows ↔ (∀ row ∈ rows, row ≠ []) ∧ rows.getLast? ≠ some [[]] := by
  rw [records_file s rows h, Option.some_inj]
  constructor
  · intro hkept
    have hlast : (rows.map filled).getLast? ≠ some [[]] := by
      intro hlast
      rw [kept, if_pos hlast] at hkept
      have hlength := congrArg List.length hkept
      have hpos := List.length_pos_iff.2 h
      rw [List.length_dropLast, List.length_map] at hlength
      omega
    rw [kept, if_neg hlast] at hkept
    refine ⟨fun row hrow => ?_, ?_⟩
    · rw [← hkept] at hrow
      obtain ⟨r, -, rfl⟩ := List.mem_map.1 hrow
      exact filled_ne_nil r
    · rwa [hkept] at hlast
  · rintro ⟨hrows, hlast⟩
    have hsame : rows.map filled = rows := by
      refine (List.map_congr_left (fun row hrow => ?_)).trans (List.map_id _)
      exact if_neg (hrows row hrow)
    rw [hsame]
    exact if_neg hlast

end Rfc4180
end MyGpt
