import MyGpt.Lib.Spans
/-!
# Marks — marks in a text that never overlap

A `Reader` reads a mark at the head of a text.  A mark is read by its own text alone, and none begins inside another, so what
a scan from left to right finds is every mark there is (`scan_eq`).  A text that is cut has the marks of its two parts, unless
one stands across the cut (`values_append`); none does right before a mark or right behind one.
-/
namespace MyGpt
namespace Marks

structure Reader (α β : Type) where
  read : List α → Option (β × Nat)
  length_pos : ∀ {t b n}, read t = some (b, n) → 0 < n ∧ n ≤ t.length
  extend : ∀ {t b n} (r : List α), read t = some (b, n) → read (t ++ r) = some (b, n)
  restrict : ∀ {t b n}, read t = some (b, n) → read (t.take n) = some (b, n)
  apart : ∀ {t b n j}, read t = some (b, n) → 0 < j → j < n → read (t.drop j) = none

structure Found (β : Type) where
  mark : β
  start : Nat
  stop : Nat
  deriving DecidableEq

variable {α β : Type} (reader : Reader α β)

/-- From left to right, behind a mark again; `skip` places are in the mark before, and the text begins at `i`. -/
def scan : Nat → Nat → List α → List (Found β)
  | _, _, [] => []
  | skip + 1, i, _ :: t => scan skip (i + 1) t
  | 0, i, a :: t =>
    match reader.read (a :: t) with
    | some (b, n) => ⟨b, i, i + n⟩ :: scan (n - 1) (i + 1) t
    | none => scan 0 (i + 1) t

def marks : Nat → List α → List (Found β)
  | _, [] => []
  | i, a :: t =>
    match reader.read (a :: t) with
    | some (b, n) => ⟨b, i, i + n⟩ :: marks (i + 1) t
    | none => marks (i + 1) t

def values : List α → List β
  | [] => []
  | a :: t =>
    match reader.read (a :: t) with
    | some (b, _) => b :: values t
    | none => values t

theorem values_cons (a : α) (t : List α) :
    values reader (a :: t) = ((reader.read (a :: t)).map (·.1)).toList ++ values reader t := by
  rw [values]
  cases reader.read (a :: t) <;> rfl

theorem values_eq : ∀ (i : Nat) (t : List α), values reader t = (marks reader i t).map (·.mark)
  | _, [] => rfl
  | i, a :: t => by
    rw [values, marks, values_eq (i + 1) t]
    cases reader.read (a :: t) <;> rfl

theorem scan_eq : ∀ (skip i : Nat) (t : List α), (∀ j < skip, reader.read (t.drop j) = none) →
    scan reader skip i t = marks reader i t
  | _, _, [], _ => by
    rw [marks, scan]
  | skip + 1, i, a :: t, h => by
    have hnone : reader.read (a :: t) = none := h 0 (Nat.succ_pos skip)
    rw [scan, marks, hnone]
    exact scan_eq skip (i + 1) t (fun j hj => h (j + 1) (Nat.succ_lt_succ hj))
  | 0, i, a :: t, _ => by
    rw [scan, marks]
    cases hread : reader.read (a :: t) with
    | none => exact scan_eq 0 (i + 1) t (fun j hj => absurd hj (Nat.not_lt_zero j))
    | some found =>
      refine congrArg (_ :: ·) (scan_eq (found.2 - 1) (i + 1) t (fun j hj => ?_))
      exact reader.apart (j := j + 1) hread (Nat.succ_pos j) (by omega)

theorem mem_marks {f : Found β} : ∀ {i : Nat} {t : List α},
    f ∈ marks reader i t ↔ ∃ j n, reader.read (t.drop j) = some (f.mark, n) ∧ f.start = i + j ∧ f.stop = i + j + n ∧ j < t.length
  | i, [] => by simp [marks]
  | i, a :: t => by
    have ih : f ∈ marks reader (i + 1) t ↔ ∃ j n, reader.read ((a :: t).drop (j + 1)) = some (f.mark, n) ∧
        f.start = i + (j + 1) ∧ f.stop = i + (j + 1) + n ∧ j < t.length := by
      rw [mem_marks]
      simp only [List.drop_succ_cons, Nat.add_assoc, Nat.add_comm 1]
    rw [marks]
    constructor
    · intro hmem
      cases hread : reader.read (a :: t) with
      | none =>
        rw [hread] at hmem
        obtain ⟨j, n, hj⟩ := ih.1 hmem
        exact ⟨j + 1, n, hj.1, hj.2.1, hj.2.2.1, Nat.succ_lt_succ hj.2.2.2⟩
      | some found =>
        rw [hread] at hmem
        rcases List.mem_cons.1 hmem with rfl | hmem
        · exact ⟨0, found.2, hread, rfl, rfl, Nat.succ_pos _⟩
        · obtain ⟨j, n, hj⟩ := ih.1 hmem
          exact ⟨j + 1, n, hj.1, hj.2.1, hj.2.2.1, Nat.succ_lt_succ hj.2.2.2⟩
    · rintro ⟨j, n, hread, hstart, hstop, hlt⟩
      cases j with
      | zero =>
        rw [show reader.read (a :: t) = some (f.mark, n) from hread]
        refine List.mem_cons.2 (.inl ?_)
        cases f
        simp_all
      | succ j =>
        have hmem := ih.2 ⟨j, n, hread, hstart, hstop, Nat.lt_of_succ_lt_succ hlt⟩
        cases reader.read (a :: t) with
        | none => exact hmem
        | some found => exact List.mem_cons_of_mem _ hmem

/-! ## a text in two parts -/

def Across (p s : List α) : Prop :=
  ∃ j < p.length, ∃ b n, reader.read ((p ++ s).drop j) = some (b, n) ∧ p.length < j + n

theorem Across.cons {a : α} {p s : List α} (h : Across reader p s) : Across reader (a :: p) s := by
  obtain ⟨j, hj, b, n, hread, hlt⟩ := h
  refine ⟨j + 1, Nat.succ_lt_succ hj, b, n, hread, ?_⟩
  rw [List.length_cons]
  omega

theorem read_append {p s : List α} {b : β} {n : Nat} (h : reader.read (p ++ s) = some (b, n)) :
    reader.read p = some (b, n) ∨ p.length < n ∧ reader.read p = none := by
  rcases Nat.lt_or_ge p.length n with hlt | hle
  · refine .inr ⟨hlt, ?_⟩
    cases hread : reader.read p with
    | none => rfl
    | some found =>
      have hsame := (reader.extend s hread).symm.trans h
      have hle := (reader.length_pos hread).2
      obtain ⟨⟩ := hsame
      exact absurd hle (Nat.not_le_of_lt hlt)
  · left
    have hown := reader.restrict h
    rw [List.take_append_of_le_length hle] at hown
    have hall := reader.extend (p.drop n) hown
    rwa [List.take_append_drop] at hall

theorem marks_append : ∀ {p s : List α} (i : Nat), ¬ Across reader p s →
    marks reader i (p ++ s) = marks reader i p ++ marks reader (i + p.length) s
  | [], s, i, _ => rfl
  | a :: p, s, i, h => by
    have ih := marks_append (i + 1) (fun hacross => h (Across.cons reader (a := a) hacross))
    have hlength : i + 1 + p.length = i + (a :: p).length := by
      rw [List.length_cons]
      omega
    rw [List.cons_append, marks, marks, ih, hlength]
    cases hread : reader.read (a :: (p ++ s)) with
    | none =>
      cases hpart : reader.read (a :: p) with
      | none => rfl
      | some found =>
        have hsome := reader.extend s hpart
        rw [List.cons_append, hread] at hsome
        cases hsome
    | some found =>
      rcases read_append reader (p := a :: p) hread with hpart | ⟨hlt, -⟩
      · rw [hpart]
        rfl
      · refine absurd ⟨0, Nat.succ_pos _, found.1, found.2, hread, ?_⟩ h
        omega

theorem values_append {p s : List α} (h : ¬ Across reader p s) : values reader (p ++ s) = values reader p ++ values reader s := by
  rw [values_eq reader 0, marks_append reader 0 h, List.map_append, ← values_eq, ← values_eq]

theorem length_values_append : ∀ (p s : List α),
    (values reader p).length + (values reader s).length ≤ (values reader (p ++ s)).length ∧
      (Across reader p s → (values reader p).length + (values reader s).length < (values reader (p ++ s)).length)
  | [], s => by
    refine ⟨Nat.le_of_eq (Nat.zero_add _), fun h => ?_⟩
    obtain ⟨j, hj, -⟩ := h
    exact absurd hj (Nat.not_lt_zero j)
  | a :: p, s => by
    obtain ⟨hle, hlt⟩ := length_values_append p s
    rw [List.cons_append, values, values]
    cases hread : reader.read (a :: (p ++ s)) with
    | none =>
      have hpart : reader.read (a :: p) = none := by
        cases hpart : reader.read (a :: p) with
        | none => rfl
        | some found =>
          have hsome := reader.extend s hpart
          rw [List.cons_append, hread] at hsome
          cases hsome
      rw [hpart]
      refine ⟨hle, fun ⟨j, hj, b, n, hmark, hbeyond⟩ => ?_⟩
      cases j with
      | zero =>
        rw [List.drop_zero, List.cons_append, hread] at hmark
        cases hmark
      | succ j =>
        rw [List.length_cons] at hj hbeyond
        exact hlt ⟨j, by omega, b, n, hmark, by omega⟩
    | some found =>
      rcases read_append reader (p := a :: p) hread with hpart | ⟨hbeyond, hpart⟩
      · rw [hpart]
        simp only [List.length_cons]
        refine ⟨by omega, fun ⟨j, hj, b, n, hmark, hacross⟩ => ?_⟩
        cases j with
        | zero =>
          rw [List.drop_zero, List.cons_append, hread] at hmark
          cases hmark
          have hin := (reader.length_pos hpart).2
          simp only [List.length_cons] at hin hacross
          omega
        | succ j =>
          rw [List.length_cons] at hj hacross
          have hmore := hlt ⟨j, by omega, b, n, hmark, by omega⟩
          omega
      · rw [hpart]
        simp only [List.length_cons]
        exact ⟨by omega, fun _ => by omega⟩

theorem not_across_before {p s : List α} {b : β} {n : Nat} (h : reader.read s = some (b, n)) : ¬ Across reader p s := by
  rintro ⟨j, hj, b', n', hread, hlt⟩
  have hnone := reader.apart (j := p.length - j) hread (by omega) (by omega)
  rw [List.drop_drop, Nat.add_sub_cancel' (Nat.le_of_lt hj), List.drop_left, h] at hnone
  cases hnone

theorem marks_of_read {t : List α} {b : β} {n : Nat} (i : Nat) (h : reader.read t = some (b, n)) :
    marks reader i t = ⟨b, i, i + n⟩ :: marks reader (i + n) (t.drop n) := by
  have hskip : ∀ k u j, (∀ m < k, reader.read (u.drop m) = none) → k ≤ u.length →
      marks reader j u = marks reader (j + k) (u.drop k) := by
    intro k
    induction k with
    | zero => exact fun u j _ _ => rfl
    | succ k ih =>
      intro u j hnone hle
      cases u with
      | nil => exact absurd hle (Nat.not_succ_le_zero k)
      | cons a u =>
        have hhead : reader.read (a :: u) = none := hnone 0 (Nat.succ_pos k)
        rw [marks, hhead, List.drop_succ_cons, Nat.add_comm k 1, ← Nat.add_assoc]
        exact ih u (j + 1) (fun m hm => hnone (m + 1) (Nat.succ_lt_succ hm)) (Nat.le_of_succ_le_succ hle)
  obtain ⟨hpos, hle⟩ := reader.length_pos h
  cases t with
  | nil => exact absurd hle (by rw [List.length_nil]; omega)
  | cons a t =>
    have hrest := hskip (n - 1) t (i + 1) (fun m hm => reader.apart (j := m + 1) h (Nat.succ_pos m) (by omega))
      (by rw [List.length_cons] at hle; omega)
    obtain ⟨k, rfl⟩ := Nat.exists_eq_succ_of_ne_zero (Nat.ne_of_gt hpos)
    rw [marks, h, hrest, List.drop_succ_cons, Nat.succ_sub_one, Nat.add_assoc i 1 k, Nat.add_comm 1 k]

theorem values_of_read {t : List α} {b : β} {n : Nat} (h : reader.read t = some (b, n)) :
    values reader t = b :: values reader (t.drop n) := by
  rw [values_eq reader 0, marks_of_read reader 0 h, List.map_cons, ← values_eq]

theorem values_between {p t s : List α} {b : β} (h : reader.read t = some (b, t.length)) :
    values reader (p ++ (t ++ s)) = values reader p ++ b :: values reader s := by
  have hmark := reader.extend s h
  rw [values_append reader (not_across_before reader hmark), values_of_read reader hmark, List.drop_left]

theorem marks_ordered : ∀ (k i : Nat) (t : List α), t.length ≤ k →
    Spans.Ordered i (i + t.length) ((marks reader i t).map (fun f => (f.start, f.stop)))
  | _, _, [], _ => Spans.Ordered.nil _ _
  | 0, _, _ :: _, h => absurd h (Nat.not_succ_le_zero _)
  | k + 1, i, a :: t, h => by
    rw [List.length_cons] at h
    cases hread : reader.read (a :: t) with
    | none =>
      have hrest := marks_ordered k (i + 1) t (by omega)
      rw [marks, hread]
      refine hrest.mono (Nat.le_succ i) ?_
      rw [List.length_cons]
      omega
    | some found =>
      obtain ⟨hpos, hle⟩ := reader.length_pos hread
      rw [marks_of_read reader i hread, List.map_cons]
      have hrest := marks_ordered k (i + found.2) ((a :: t).drop found.2) (by
        rw [List.length_drop, List.length_cons]
        omega)
      show Spans.Ordered i _ ((i, i + found.2) :: _)
      refine Spans.Ordered.cons (Nat.le_refl i) (by omega) (by omega) (hrest.mono (Nat.le_refl _) ?_)
      rw [List.length_drop]
      omega

/-! ## a part that is taken out -/

/-- A mark that the places from `i` to `j` have a part of. -/
def Cuts (t : List α) (i j : Nat) : Prop := ∃ f ∈ marks reader 0 t, f.start < j ∧ i < f.stop

theorem cuts_iff {t : List α} {i j : Nat} :
    Cuts reader t i j ↔ ∃ k b n, reader.read (t.drop k) = some (b, n) ∧ k < t.length ∧ k < j ∧ i < k + n := by
  constructor
  · rintro ⟨f, hmem, hstart, hstop⟩
    obtain ⟨k, n, hread, hk, hn, hlt⟩ := (mem_marks reader).1 hmem
    exact ⟨k, f.mark, n, hread, hlt, by omega, by omega⟩
  · rintro ⟨k, b, n, hread, hlt, hstart, hstop⟩
    refine ⟨⟨b, k, k + n⟩, (mem_marks reader).2 ⟨k, n, hread, (Nat.zero_add k).symm, ?_, hlt⟩, hstart, hstop⟩
    rw [Nat.zero_add]

theorem values_eq_nil : ∀ {t : List α}, (∀ k, k < t.length → reader.read (t.drop k) = none) → values reader t = []
  | [], _ => rfl
  | a :: t, h => by
    have hhead : reader.read (a :: t) = none := h 0 (Nat.succ_pos _)
    rw [values, hhead]
    exact values_eq_nil (fun k hk => h (k + 1) (Nat.succ_lt_succ hk))

theorem values_around {t : List α} {i j : Nat} (hle : i ≤ j) (h : ¬ Cuts reader t i j) :
    values reader t = values reader (t.take i) ++ values reader (t.drop j) := by
  rw [cuts_iff] at h
  have hright : t.drop j = (t.drop i).drop (j - i) := by
    rw [List.drop_drop, Nat.add_sub_cancel' hle]
  have hacross : ¬ Across reader (t.take i) (t.drop i) := by
    rintro ⟨k, hk, b, n, hread, hlt⟩
    rw [List.take_append_drop] at hread
    have hin := (reader.length_pos hread).2
    rw [List.length_take] at hk hlt
    rw [List.length_drop] at hin
    exact h ⟨k, b, n, hread, by omega, by omega, by omega⟩
  have hmiddle : ¬ Across reader ((t.drop i).take (j - i)) ((t.drop i).drop (j - i)) := by
    rintro ⟨k, hk, b, n, hread, hlt⟩
    rw [List.take_append_drop, List.drop_drop] at hread
    have hpos := (reader.length_pos hread).1
    rw [List.length_take, List.length_drop] at hk
    exact h ⟨i + k, b, n, hread, by omega, by omega, by omega⟩
  have hnone : values reader ((t.drop i).take (j - i)) = [] := by
    refine values_eq_nil reader (fun k hk => ?_)
    cases hread : reader.read (((t.drop i).take (j - i)).drop k) with
    | none => rfl
    | some found =>
      have hpos := (reader.length_pos hread).1
      have hsame := reader.extend ((t.drop i).drop (j - i)) hread
      rw [← List.drop_append_of_le_length (Nat.le_of_lt hk), List.take_append_drop, List.drop_drop] at hsame
      rw [List.length_take, List.length_drop] at hk
      exact absurd ⟨i + k, _, _, hsame, by omega, by omega, by omega⟩ h
  have hsplit := values_append reader hacross
  have hsplit' := values_append reader hmiddle
  rw [List.take_append_drop] at hsplit hsplit'
  rw [hsplit, hsplit', hnone, hright, List.nil_append]

theorem length_around_lt {t : List α} {i j : Nat} (hle : i ≤ j) (h : Cuts reader t i j) :
    (values reader (t.take i)).length + (values reader (t.drop j)).length < (values reader t).length := by
  obtain ⟨k, b, n, hread, hlt, hstart, hstop⟩ := (cuts_iff reader).1 h
  have hright : t.drop j = (t.drop i).drop (j - i) := by
    rw [List.drop_drop, Nat.add_sub_cancel' hle]
  obtain ⟨houter, hacross⟩ := length_values_append reader (t.take i) (t.drop i)
  obtain ⟨hinner, hmiddle⟩ := length_values_append reader ((t.drop i).take (j - i)) ((t.drop i).drop (j - i))
  rw [List.take_append_drop] at houter hacross hinner hmiddle
  rw [hright]
  have hbeyond := (reader.length_pos hread).2
  rw [List.length_drop] at hbeyond
  rcases Nat.lt_or_ge k i with hbefore | hbehind
  · have hmore := hacross ⟨k, by rw [List.length_take]; omega, b, n, by rwa [List.take_append_drop], by
      rw [List.length_take]
      omega⟩
    omega
  · have hplace : (t.drop i).drop (k - i) = t.drop k := by
      rw [List.drop_drop, Nat.add_sub_cancel' hbehind]
    rcases Nat.lt_or_ge ((t.drop i).take (j - i)).length (k - i + n) with hcross | hinside
    · have hmore := hmiddle ⟨k - i, by rw [List.length_take, List.length_drop]; omega, b, n, by
        rwa [List.take_append_drop, hplace], hcross⟩
      omega
    · -- the mark is in the part
      have hin : (values reader ((t.drop i).take (j - i))).length ≠ 0 := by
        intro hzero
        have hown := reader.restrict hread
        rw [← hplace, ← List.take_append_drop (j - i) (t.drop i), List.drop_append_of_le_length (by omega),
          List.take_append_of_le_length (by rw [List.length_drop]; omega)] at hown
        have hall := reader.extend ((((t.drop i).take (j - i)).drop (k - i)).drop n) hown
        rw [List.take_append_drop] at hall
        have hmem : (⟨b, 0 + (k - i), 0 + (k - i) + n⟩ : Found β) ∈ marks reader 0 ((t.drop i).take (j - i)) := by
          refine (mem_marks reader).2 ⟨k - i, n, hall, rfl, rfl, ?_⟩
          rw [List.length_take, List.length_drop]
          omega
        rw [values_eq reader 0, List.length_map, List.length_eq_zero_iff] at hzero
        rw [hzero] at hmem
        cases hmem
      omega

theorem marks_first {p : β → Bool} {t : List α} {i : Nat} {f : Found β} {fs : List (Found β)}
    (h : (marks reader i t).filter (fun f => p f.mark) = f :: fs) :
    ∃ k n, f.start = i + k ∧ f.stop = i + k + n ∧ p f.mark = true ∧ (∀ b ∈ values reader (t.take k), p b = false) ∧
      (marks reader (i + k + n) (t.drop (k + n))).filter (fun f => p f.mark) = fs ∧
      values reader t = values reader (t.take k) ++ f.mark :: values reader (t.drop (k + n)) := by
  have hmem : f ∈ (marks reader i t).filter (fun f => p f.mark) := h ▸ List.mem_cons_self
  obtain ⟨hmark, hp⟩ := List.mem_filter.1 hmem
  obtain ⟨k, n, hread, hstart, hstop, hlt⟩ := (mem_marks reader).1 hmark
  have hsplit := marks_append reader i (not_across_before reader (p := t.take k) hread)
  rw [List.take_append_drop, List.length_take, Nat.min_eq_left (Nat.le_of_lt hlt), marks_of_read reader (i + k) hread,
    List.drop_drop] at hsplit
  have hself : (⟨f.mark, i + k, i + k + n⟩ : Found β) = f := by
    show _ = (⟨f.mark, f.start, f.stop⟩ : Found β)
    rw [hstart, hstop]
  rw [hself] at hsplit
  rw [hsplit, List.filter_append, List.filter_cons, if_pos hp] at h
  have hbefore : (marks reader i (t.take k)).filter (fun f => p f.mark) = [] := by
    cases hfirst : (marks reader i (t.take k)).filter (fun f => p f.mark) with
    | nil => rfl
    | cons g gs =>
      -- it would be the mark itself, which begins behind
      rw [hfirst] at h
      obtain ⟨rfl, -⟩ := List.cons.inj h
      have hg : g ∈ (marks reader i (t.take k)).filter (fun f => p f.mark) := hfirst ▸ List.mem_cons_self
      obtain ⟨j, m, -, hplace, -, hj⟩ := (mem_marks reader).1 (List.mem_filter.1 hg).1
      rw [List.length_take] at hj
      omega
  rw [hbefore, List.nil_append] at h
  refine ⟨k, n, hstart, hstop, hp, fun b hb => ?_, (List.cons.inj h).2, ?_⟩
  · rw [values_eq reader i] at hb
    obtain ⟨g, hg, rfl⟩ := List.mem_map.1 hb
    exact Bool.eq_false_iff.2 (fun hpg => List.filter_eq_nil_iff.1 hbefore g hg hpg)
  · rw [values_eq reader i t, hsplit, List.map_append, List.map_cons, ← values_eq, ← values_eq]

end Marks
end MyGpt
