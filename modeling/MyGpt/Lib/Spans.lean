import Mathlib.Data.List.Basic
/-!
# Spans — ranges of a list, in order and apart, and what is left of the list without them

`Ordered lo hi spans`: ranges from `lo` on, none empty, each behind the one before, none beyond `hi`.  Cut out from the last
to the first, each by its place in the whole list, they leave what stands outside all of them (`cut_outside`).
-/
namespace MyGpt
namespace Spans

variable {α : Type} {lo hi mid : Nat} {spans more : List (Nat × Nat)}

structure Ordered (lo hi : Nat) (spans : List (Nat × Nat)) : Prop where
  apart : spans.Pairwise (fun p q => p.2 ≤ q.1)
  inside : ∀ p ∈ spans, lo ≤ p.1 ∧ p.1 < p.2 ∧ p.2 ≤ hi

theorem Ordered.nil (lo hi : Nat) : Ordered lo hi [] := ⟨List.Pairwise.nil, nofun⟩

theorem Ordered.cons {s e : Nat} (hs : lo ≤ s) (he : s < e) (hle : e ≤ hi) (h : Ordered e hi spans) :
    Ordered lo hi ((s, e) :: spans) := by
  refine ⟨List.pairwise_cons.2 ⟨fun p hp => (h.inside p hp).1, h.apart⟩, fun p hp => ?_⟩
  rcases List.mem_cons.1 hp with rfl | hp
  · exact ⟨hs, he, hle⟩
  · obtain ⟨hlo, hlt, hhi⟩ := h.inside p hp
    exact ⟨by omega, hlt, hhi⟩

theorem Ordered.tail {p : Nat × Nat} (h : Ordered lo hi (p :: spans)) : Ordered p.2 hi spans := by
  obtain ⟨hfirst, hrest⟩ := List.pairwise_cons.1 h.apart
  refine ⟨hrest, fun q hq => ?_⟩
  obtain ⟨-, hlt, hhi⟩ := h.inside q (List.mem_cons_of_mem p hq)
  exact ⟨hfirst q hq, hlt, hhi⟩

theorem Ordered.append (h : Ordered lo mid spans) (hmore : Ordered mid hi more) (hlo : lo ≤ mid) (hhi : mid ≤ hi) :
    Ordered lo hi (spans ++ more) := by
  refine ⟨List.pairwise_append.2 ⟨h.apart, hmore.apart, fun p hp q hq => ?_⟩, fun p hp => ?_⟩
  · exact Nat.le_trans (h.inside p hp).2.2 (hmore.inside q hq).1
  · rcases List.mem_append.1 hp with hp | hp
    · obtain ⟨h1, h2, h3⟩ := h.inside p hp
      exact ⟨h1, h2, by omega⟩
    · obtain ⟨h1, h2, h3⟩ := hmore.inside p hp
      exact ⟨by omega, h2, h3⟩

theorem Ordered.mono {lo' hi' : Nat} (h : Ordered lo hi spans) (hlo : lo' ≤ lo) (hhi : hi ≤ hi') : Ordered lo' hi' spans := by
  refine ⟨h.apart, fun p hp => ?_⟩
  obtain ⟨h1, h2, h3⟩ := h.inside p hp
  exact ⟨by omega, h2, by omega⟩

theorem Ordered.sublist (h : Ordered lo hi spans) (hsub : more.Sublist spans) : Ordered lo hi more :=
  ⟨h.apart.sublist hsub, fun p hp => h.inside p (hsub.subset hp)⟩

theorem Ordered.filterMap (base : Nat) (f : Nat × Nat → Option (Nat × Nat)) (h : Ordered lo hi spans)
    (hf : ∀ p ∈ spans, ∀ q, f p = some q → base + p.1 ≤ q.1 ∧ q.1 < q.2 ∧ q.2 ≤ base + p.2) :
    Ordered (base + lo) (base + hi) (spans.filterMap f) := by
  induction spans generalizing lo with
  | nil => exact Ordered.nil _ _
  | cons p spans ih =>
    have hrest := ih h.tail (fun q hq => hf q (List.mem_cons_of_mem p hq))
    obtain ⟨hlo, hlt, hhi⟩ := h.inside p List.mem_cons_self
    rw [List.filterMap_cons]
    cases hp : f p with
    | none => exact hrest.mono (by omega) (Nat.le_refl _)
    | some q =>
      obtain ⟨h1, h2, h3⟩ := hf p List.mem_cons_self q hp
      exact Ordered.cons (by omega) h2 (by omega) (hrest.mono h3 (Nat.le_refl _))

/-! ## what is outside -/

def covers (spans : List (Nat × Nat)) (i : Nat) : Bool := spans.any (fun p => decide (p.1 ≤ i) && decide (i < p.2))

/-- What stands outside the ranges, of a list that begins at position `n`. -/
def outside (spans : List (Nat × Nat)) : Nat → List α → List α
  | _, [] => []
  | n, a :: l => if covers spans n then outside spans (n + 1) l else a :: outside spans (n + 1) l

theorem outside_append (l r : List α) (n : Nat) :
    outside spans n (l ++ r) = outside spans n l ++ outside spans (n + l.length) r := by
  induction l generalizing n with
  | nil => rfl
  | cons a l ih =>
    have hn : n + 1 + l.length = n + (a :: l).length := by
      rw [List.length_cons]
      omega
    rw [List.cons_append, outside, outside, ih, hn]
    split <;> rfl

theorem outside_congr (l : List α) (n : Nat) (h : ∀ i, n ≤ i → i < n + l.length → covers spans i = covers more i) :
    outside spans n l = outside more n l := by
  induction l generalizing n with
  | nil => rfl
  | cons a l ih =>
    rw [List.length_cons] at h
    rw [outside, outside, h n (Nat.le_refl n) (by omega), ih (n + 1) (fun i h1 h2 => h i (by omega) (by omega))]

@[simp] theorem outside_nil (l : List α) (n : Nat) : outside [] n l = l := by
  induction l generalizing n with
  | nil => rfl
  | cons a l ih => rw [outside, ih, covers, List.any_nil, if_neg Bool.false_ne_true]

theorem outside_covered (l : List α) (n : Nat) (h : ∀ i, n ≤ i → i < n + l.length → covers spans i = true) :
    outside spans n l = [] := by
  induction l generalizing n with
  | nil => rfl
  | cons a l ih =>
    rw [List.length_cons] at h
    rw [outside, h n (Nat.le_refl n) (by omega), if_pos rfl, ih (n + 1) (fun i h1 h2 => h i (by omega) (by omega))]

/-! ## cutting -/

def cut (p : Nat × Nat) (l : List α) : List α := l.take p.1 ++ l.drop p.2

theorem Ordered.covers_lt {i : Nat} (h : Ordered lo hi spans) (hi : i < lo) : covers spans i = false := by
  unfold covers
  rw [List.any_eq_false]
  intro p hp
  have hlo := (h.inside p hp).1
  simp only [Bool.and_eq_true, decide_eq_true_eq]
  omega

theorem covers_cons (p : Nat × Nat) (i : Nat) :
    covers (p :: spans) i = ((decide (p.1 ≤ i) && decide (i < p.2)) || covers spans i) := rfl

theorem cut_outside {p : Nat × Nat} {l : List α} (h : Ordered lo hi (p :: spans)) (hle : hi ≤ l.length) :
    cut p (outside spans 0 l) = outside (p :: spans) 0 l := by
  obtain ⟨-, hlt, hhi⟩ := h.inside p List.mem_cons_self
  have hfirst : (l.take p.1).length = p.1 := by
    rw [List.length_take]
    omega
  have hsecond : ((l.drop p.1).take (p.2 - p.1)).length = p.2 - p.1 := by
    rw [List.length_take, List.length_drop]
    omega
  have hsplit : l = l.take p.1 ++ (l.drop p.1).take (p.2 - p.1) ++ l.drop p.2 := by
    rw [List.append_assoc]
    conv_lhs => rw [← List.take_append_drop p.1 l, ← List.take_append_drop (p.2 - p.1) (l.drop p.1), List.drop_drop]
    rw [Nat.add_sub_cancel' (Nat.le_of_lt hlt)]
  generalize hleft : l.take p.1 = left at hfirst hsplit
  generalize hmiddle : (l.drop p.1).take (p.2 - p.1) = middle at hsecond hsplit
  generalize hright : l.drop p.2 = right at hsplit
  subst hsplit
  have hlen : 0 + (left ++ middle).length = p.2 := by
    rw [List.length_append]
    omega
  -- the later ranges stand behind what is before them and in this one
  have hearly : outside spans 0 (left ++ middle) = left ++ middle := by
    have hnone : outside spans 0 (left ++ middle) = outside [] 0 (left ++ middle) :=
      outside_congr (left ++ middle) 0 (fun i _ hi => h.tail.covers_lt (hlen ▸ hi))
    rw [hnone, outside_nil]
  have hbefore : outside (p :: spans) 0 left = left := by
    have hnone : outside (p :: spans) 0 left = outside [] 0 left := by
      refine outside_congr left 0 (fun i _ hi => ?_)
      rw [covers_cons, h.tail.covers_lt (by omega), Bool.or_false, covers, List.any_nil, Bool.and_eq_false_iff]
      exact .inl (decide_eq_false (by omega))
    rw [hnone, outside_nil]
  have hwithin : outside (p :: spans) (0 + left.length) middle = [] := by
    refine outside_covered middle _ (fun i h1 h2 => ?_)
    rw [covers_cons, Bool.or_eq_true, Bool.and_eq_true]
    exact .inl ⟨decide_eq_true (by omega), decide_eq_true (by omega)⟩
  have hbehind : outside (p :: spans) (0 + (left ++ middle).length) right =
      outside spans (0 + (left ++ middle).length) right := by
    refine outside_congr right _ (fun i h1 _ => ?_)
    rw [covers_cons, Bool.or_eq_right_iff_imp, Bool.and_eq_true]
    rintro ⟨-, hlt⟩
    exact absurd (of_decide_eq_true hlt) (by omega)
  rw [outside_append (left ++ middle) right, outside_append (left ++ middle) right, hearly, hbehind, outside_append left,
    hbefore, hwithin, cut, List.append_nil]
  congr 1
  · rw [List.append_assoc, List.take_append_of_le_length (by omega), List.take_of_length_le (by omega)]
  · rw [List.drop_append_of_le_length (by omega), List.drop_of_length_le (by omega), List.nil_append]

/-- **From the first range on**: what stands before it, and what is outside the others behind it. -/
theorem outside_cons {p : Nat × Nat} (h : Ordered lo hi (p :: spans)) (l : List α) :
    outside (p :: spans) lo l = l.take (p.1 - lo) ++ outside spans p.2 (l.drop (p.2 - lo)) := by
  obtain ⟨hlo, hlt, -⟩ := h.inside p List.mem_cons_self
  have hbefore : outside (p :: spans) lo (l.take (p.1 - lo)) = l.take (p.1 - lo) := by
    have hnone : outside (p :: spans) lo (l.take (p.1 - lo)) = outside [] lo (l.take (p.1 - lo)) := by
      refine outside_congr _ lo (fun i hlow hi => ?_)
      rw [List.length_take] at hi
      rw [covers_cons, h.tail.covers_lt (by omega), Bool.or_false, covers, List.any_nil, Bool.and_eq_false_iff]
      exact .inl (decide_eq_false (by omega))
    rw [hnone, outside_nil]
  have hrest : ∀ (m : List α) (n : Nat), p.1 ≤ n → outside (p :: spans) n m = outside spans (max n p.2) (m.drop (p.2 - n)) := by
    intro m
    induction m with
    | nil => simp [outside]
    | cons a m ih =>
      intro n hn
      rcases Nat.lt_or_ge n p.2 with hin | hout
      · have hcovers : covers (p :: spans) n = true := by
          rw [covers_cons, Bool.or_eq_true, Bool.and_eq_true]
          exact .inl ⟨decide_eq_true hn, decide_eq_true hin⟩
        obtain ⟨k, hk⟩ := Nat.exists_eq_succ_of_ne_zero (Nat.ne_of_gt (Nat.sub_pos_of_lt hin))
        have hnext : p.2 - (n + 1) = k := by omega
        rw [outside, hcovers, if_pos rfl, ih (n + 1) (by omega), hk, List.drop_succ_cons, hnext, Nat.max_eq_right hin,
          Nat.max_eq_right (Nat.le_of_lt hin)]
      · have hcongr : outside (p :: spans) n (a :: m) = outside spans n (a :: m) := by
          refine outside_congr _ n (fun i hlow _ => ?_)
          rw [covers_cons, Bool.or_eq_right_iff_imp, Bool.and_eq_true]
          rintro ⟨-, hbelow⟩
          exact absurd (of_decide_eq_true hbelow) (by omega)
        rw [hcongr, Nat.max_eq_left hout, Nat.sub_eq_zero_of_le hout, List.drop_zero]
  conv_lhs => rw [← List.take_append_drop (p.1 - lo) l, outside_append, hbefore]
  rcases Nat.lt_or_ge l.length (p.1 - lo) with hshort | hlong
  · rw [List.drop_eq_nil_of_le (Nat.le_of_lt hshort), List.drop_eq_nil_of_le (by omega), outside, outside]
  · have hplace : lo + (l.take (p.1 - lo)).length = p.1 := by
      rw [List.length_take, Nat.min_eq_left hlong]
      omega
    rw [hplace, hrest _ p.1 (Nat.le_refl _), Nat.max_eq_right (Nat.le_of_lt hlt), List.drop_drop]
    congr 3
    omega

theorem length_outside_ge {l : List α} (h : Ordered lo hi spans) (hle : lo ≤ l.length) : lo ≤ (outside spans 0 l).length := by
  have hsplit : outside spans 0 (l.take lo ++ l.drop lo) = _ := outside_append (l.take lo) (l.drop lo) 0
  rw [List.take_append_drop] at hsplit
  have hearly : outside spans 0 (l.take lo) = l.take lo := by
    have hnone : outside spans 0 (l.take lo) = outside [] 0 (l.take lo) :=
      outside_congr (l.take lo) 0 (fun i _ hi => h.covers_lt (by
        rw [List.length_take] at hi
        omega))
    rw [hnone, outside_nil]
  rw [hsplit, hearly, List.length_append, List.length_take]
  omega

end Spans
end MyGpt
