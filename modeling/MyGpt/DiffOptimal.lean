import MyGpt.DiffPairs
import MyGpt.Lib.Lcs
/-!
# DiffOptimal — within the budget of the exact search, the line diff is a shortest one

A row of the dynamic programme holds the lengths of the longest common subsequences of the suffixes, and a cell of the
direction matrix leads on to one (`lcsTable_leads`).  What a segment begins and ends with alike is common to all of them, so
the pairs of a text that fits the budget are as many as there can be, and none is lost in the order of the sort.
-/
namespace MyGpt
namespace Diff

open Sse (JsString)
open Joins (slice length_slice slice_self)
open Lcs (IsLcs)

variable {a b : List JsString}

/-! ## the table -/

/-- **A row of lengths**: from each place of `b` on, that of a longest common subsequence with `a`. -/
def RowOf (a : List JsString) : List JsString → List Nat → Prop
  | [], row => IsLcs a [] (row.headD 0)
  | c :: bs, row => IsLcs a (c :: bs) (row.headD 0) ∧ RowOf a bs row.tail

theorem RowOf.head : ∀ {b : List JsString} {row : List Nat}, RowOf a b row → IsLcs a b (row.headD 0)
  | [], _, h => h
  | _ :: _, _, h => h.1

theorem rowOf_zeros : ∀ b : List JsString, RowOf [] b (List.replicate (b.length + 1) 0)
  | [] => IsLcs.nil_left []
  | c :: bs => ⟨IsLcs.nil_left (c :: bs), rowOf_zeros bs⟩

/-- **Where a cell leads**: the longest common subsequences behind it are, with its own line, the longest from it on. -/
def Leads (a b : List JsString) : Dir → Prop
  | .both => ∀ k, IsLcs a.tail b.tail k → IsLcs a b (k + 1)
  | .old => ∀ k, IsLcs a.tail b k → IsLcs a b k
  | .new => ∀ k, IsLcs a b.tail k → IsLcs a b k

theorem lcsRow_rowOf (line : JsString) : ∀ (b : List JsString) (next : List Nat), RowOf a b next →
    RowOf (line :: a) b (lcsRow line b next).1
  | [], _, _ => IsLcs.nil_right (line :: a)
  | c :: bs, next, h => by
    have ih := lcsRow_rowOf line bs next.tail h.2
    unfold lcsRow
    dsimp only
    split
    · rename_i hc
      exact ⟨hc ▸ h.2.head.cons_same line, ih⟩
    · rename_i hc
      split
      · rename_i hle
        exact ⟨IsLcs.drop_left hc h.1 ih.head hle, ih⟩
      · rename_i hlt
        exact ⟨IsLcs.drop_right hc h.1 ih.head (Nat.le_of_lt (Nat.lt_of_not_le hlt)), ih⟩

theorem lcsRow_leads (line : JsString) : ∀ (b : List JsString) (next : List Nat) (j : Nat), RowOf a b next → j < b.length →
    ∃ d, (lcsRow line b next).2[j]? = some d ∧ Leads (line :: a) (b.drop j) d
  | [], _, _, _, hj => absurd hj (Nat.not_lt_zero _)
  | c :: bs, next, 0, h, _ => by
    have hcur := (lcsRow_rowOf line bs next.tail h.2).head
    unfold lcsRow
    dsimp only
    split
    · rename_i hc
      exact ⟨.both, List.getElem?_cons_zero, fun k hk => hc ▸ hk.cons_same line⟩
    · rename_i hc
      split
      · rename_i hle
        refine ⟨.old, List.getElem?_cons_zero, fun k hk => ?_⟩
        rw [hk.unique h.1]
        exact IsLcs.drop_left hc h.1 hcur hle
      · rename_i hlt
        refine ⟨.new, List.getElem?_cons_zero, fun k hk => ?_⟩
        rw [hk.unique hcur]
        exact IsLcs.drop_right hc h.1 hcur (Nat.le_of_lt (Nat.lt_of_not_le hlt))
  | c :: bs, next, j + 1, h, hj => by
    obtain ⟨d, hd, hleads⟩ := lcsRow_leads line bs next.tail j h.2 (Nat.lt_of_succ_lt_succ hj)
    refine ⟨d, ?_, hleads⟩
    unfold lcsRow
    dsimp only
    split
    · exact hd
    · split <;> exact hd

theorem lcsTable_rowOf (b : List JsString) : ∀ a : List JsString, RowOf a b (lcsTable b a).1
  | [] => rowOf_zeros b
  | line :: a => lcsRow_rowOf line b _ (lcsTable_rowOf b a)

theorem lcsTable_leads (b : List JsString) : ∀ (a : List JsString) (i j : Nat), i < a.length → j < b.length →
    ∃ d, dirAt (lcsTable b a).2 i j = some d ∧ Leads (a.drop i) (b.drop j) d
  | [], _, _, hi, _ => absurd hi (Nat.not_lt_zero _)
  | line :: a, 0, j, _, hj => by
    obtain ⟨d, hd, hleads⟩ := lcsRow_leads line b _ j (lcsTable_rowOf b a) hj
    exact ⟨d, by simpa [dirAt, lcsTable] using hd, hleads⟩
  | line :: a, i + 1, j, hi, hj => by
    obtain ⟨d, hd, hleads⟩ := lcsTable_leads b a i j (Nat.lt_of_succ_lt_succ hi) hj
    exact ⟨d, by simpa [dirAt, lcsTable] using hd, hleads⟩

/-! ## the walk -/

/-- **The walk** takes as many pairs as a longest common subsequence of what is behind it has lines. -/
theorem walk_length (a b : List JsString) (a0 b0 : Nat) : ∀ (fuel i j : Nat), a.length - i + (b.length - j) ≤ fuel →
    IsLcs (a.drop i) (b.drop j) (walk (lcsTable b a).2 a.length b.length a0 b0 fuel i j).length
  | 0, i, j, hfuel => by
    rw [List.drop_eq_nil_of_le (show a.length ≤ i by omega)]
    exact IsLcs.nil_left _
  | fuel + 1, i, j, hfuel => by
    unfold walk
    split
    · rename_i hin
      obtain ⟨d, hd, hleads⟩ := lcsTable_leads b a i j hin.1 hin.2
      rw [hd]
      cases d with
      | both =>
        refine hleads _ ?_
        rw [List.tail_drop, List.tail_drop]
        exact walk_length a b a0 b0 fuel (i + 1) (j + 1) (by omega)
      | old =>
        refine hleads _ ?_
        rw [List.tail_drop]
        exact walk_length a b a0 b0 fuel (i + 1) j (by omega)
      | new =>
        refine hleads _ ?_
        rw [List.tail_drop]
        exact walk_length a b a0 b0 fuel i (j + 1) (by omega)
    · rename_i hout
      rcases Nat.lt_or_ge i a.length with hi | hi
      · rw [List.drop_eq_nil_of_le (show b.length ≤ j by omega)]
        exact IsLcs.nil_right _
      · rw [List.drop_eq_nil_of_le hi]
        exact IsLcs.nil_left _

/-- `p` stands before `q` on both sides. -/
def Before (p q : Pair) : Prop := p.i < q.i ∧ p.j < q.j

/-- `p` stands in the segment on both sides. -/
def Inside (s : Segment) (p : Pair) : Prop := (s.a0 ≤ p.i ∧ p.i < s.a1) ∧ s.b0 ≤ p.j ∧ p.j < s.b1

theorem walk_inside (dirs : List (List Dir)) (n m a0 b0 : Nat) : ∀ (fuel i j : Nat),
    ∀ p ∈ walk dirs n m a0 b0 fuel i j, Inside ⟨a0 + i, a0 + n, b0 + j, b0 + m⟩ p
  | 0, _, _, p, hp => absurd hp List.not_mem_nil
  | fuel + 1, i, j, p, hp => by
    unfold walk at hp
    split at hp
    · rename_i hin
      have hwider : ∀ i' j', i ≤ i' → j ≤ j' → Inside ⟨a0 + i', a0 + n, b0 + j', b0 + m⟩ p →
          Inside ⟨a0 + i, a0 + n, b0 + j, b0 + m⟩ p := fun i' j' hi hj h =>
        ⟨⟨Nat.le_trans (Nat.add_le_add_left hi a0) h.1.1, h.1.2⟩, Nat.le_trans (Nat.add_le_add_left hj b0) h.2.1, h.2.2⟩
      split at hp
      · rcases List.mem_cons.1 hp with rfl | hp
        · exact ⟨⟨Nat.le_refl _, Nat.add_lt_add_left hin.1 a0⟩, Nat.le_refl _, Nat.add_lt_add_left hin.2 b0⟩
        · exact hwider _ _ (Nat.le_succ i) (Nat.le_succ j) (walk_inside dirs n m a0 b0 fuel (i + 1) (j + 1) p hp)
      · exact hwider _ _ (Nat.le_succ i) (Nat.le_refl j) (walk_inside dirs n m a0 b0 fuel (i + 1) j p hp)
      · exact hwider _ _ (Nat.le_refl i) (Nat.le_succ j) (walk_inside dirs n m a0 b0 fuel i (j + 1) p hp)
    · exact absurd hp List.not_mem_nil

theorem walk_before (dirs : List (List Dir)) (n m a0 b0 : Nat) : ∀ (fuel i j : Nat),
    (walk dirs n m a0 b0 fuel i j).Pairwise Before
  | 0, _, _ => List.Pairwise.nil
  | fuel + 1, i, j => by
    unfold walk
    split
    · split
      · refine List.Pairwise.cons (fun q hq => ?_) (walk_before dirs n m a0 b0 fuel (i + 1) (j + 1))
        have hin := walk_inside dirs n m a0 b0 fuel (i + 1) (j + 1) q hq
        exact ⟨hin.1.1, hin.2.1⟩
      · exact walk_before dirs n m a0 b0 fuel (i + 1) j
      · exact walk_before dirs n m a0 b0 fuel i (j + 1)
    · exact List.Pairwise.nil

theorem lcsPairs_length {a0 a1 b0 b1 : Nat} (ha : a1 ≤ a.length) (hb : b1 ≤ b.length) :
    IsLcs (slice a a0 a1) (slice b b0 b1) (lcsPairs a b a0 a1 b0 b1).length := by
  have h := walk_length (slice a a0 a1) (slice b b0 b1) a0 b0 (a1 - a0 + (b1 - b0)) 0 0
    (by rw [length_slice ha, length_slice hb, Nat.sub_zero, Nat.sub_zero])
  rwa [length_slice ha, length_slice hb] at h

/-! ## what a segment begins and ends with -/

/-- So many pairs from the lines `x` and `y` on. -/
def diagonal (x y n : Nat) : List Pair := (List.range n).map (fun k => ⟨x + k, y + k⟩)

theorem diagonal_before (x y n : Nat) : (diagonal x y n).Pairwise Before := by
  rw [diagonal, List.pairwise_map]
  exact List.pairwise_lt_range.imp fun h => ⟨Nat.add_lt_add_left h x, Nat.add_lt_add_left h y⟩

theorem diagonal_inside (x y n : Nat) : ∀ p ∈ diagonal x y n, Inside ⟨x, x + n, y, y + n⟩ p := by
  intro p hp
  obtain ⟨k, hk, rfl⟩ := List.mem_map.1 hp
  have hlt := List.mem_range.1 hk
  exact ⟨⟨Nat.le_add_right x k, Nat.add_lt_add_left hlt x⟩, Nat.le_add_right y k, Nat.add_lt_add_left hlt y⟩

theorem slice_eq_of_diagonal {x y n : Nat} (h : ∀ p ∈ diagonal x y n, Matched a b p) :
    slice a x (x + n) = slice b y (y + n) := by
  apply List.ext_getElem?
  intro k
  unfold slice
  rw [Nat.add_sub_cancel_left, Nat.add_sub_cancel_left, List.getElem?_take, List.getElem?_take]
  split
  · rename_i hk
    obtain ⟨line, hi, hj⟩ := h ⟨x + k, y + k⟩ (List.mem_map.2 ⟨k, List.mem_range.2 hk, rfl⟩)
    rw [List.getElem?_drop, List.getElem?_drop, hi, hj]
  · rfl

theorem diagonal_succ (x y n : Nat) : diagonal x y (n + 1) = ⟨x, y⟩ :: diagonal (x + 1) (y + 1) n := by
  unfold diagonal
  rw [List.range_succ_eq_map, List.map_cons, List.map_map]
  refine congrArg _ (List.map_congr_left fun k _ => ?_)
  rw [Function.comp_apply, Nat.add_right_comm x 1 k, Nat.add_right_comm y 1 k]
  rfl

theorem diagonal_snoc (x y n : Nat) : diagonal x y (n + 1) = diagonal x y n ++ [⟨x + n, y + n⟩] := by
  unfold diagonal
  rw [List.range_succ, List.map_append, List.map_singleton]

theorem headPairs_diagonal {a1 b1 : Nat} : ∀ (fuel a0 b0 : Nat), headPairs a b a1 b1 fuel a0 b0 =
    diagonal a0 b0 (headPairs a b a1 b1 fuel a0 b0).length
  | 0, _, _ => rfl
  | fuel + 1, a0, b0 => by
    unfold headPairs
    split
    · rw [List.length_cons, diagonal_succ, ← headPairs_diagonal fuel (a0 + 1) (b0 + 1)]
    · rfl

theorem headPairs_le {a1 b1 : Nat} : ∀ (fuel a0 b0 : Nat), a0 ≤ a1 → b0 ≤ b1 →
    a0 + (headPairs a b a1 b1 fuel a0 b0).length ≤ a1 ∧ b0 + (headPairs a b a1 b1 fuel a0 b0).length ≤ b1
  | 0, _, _, ha, hb => ⟨ha, hb⟩
  | fuel + 1, a0, b0, ha, hb => by
    unfold headPairs
    split
    · rename_i h
      have ih := headPairs_le fuel (a0 + 1) (b0 + 1) h.1 h.2.1
      rw [List.length_cons]
      omega
    · exact ⟨ha, hb⟩

theorem tailPairs_le {a0 b0 : Nat} : ∀ (fuel a1 b1 : Nat), a0 ≤ a1 → b0 ≤ b1 →
    a0 + (tailPairs a b a0 b0 fuel a1 b1).length ≤ a1 ∧ b0 + (tailPairs a b a0 b0 fuel a1 b1).length ≤ b1
  | 0, _, _, ha, hb => ⟨ha, hb⟩
  | fuel + 1, a1, b1, ha, hb => by
    unfold tailPairs
    split
    · rename_i h
      have ih := tailPairs_le fuel (a1 - 1) (b1 - 1) (Nat.le_sub_one_of_lt h.1) (Nat.le_sub_one_of_lt h.2.1)
      rw [List.length_cons]
      omega
    · exact ⟨ha, hb⟩

theorem tailPairs_diagonal {a0 b0 : Nat} : ∀ (fuel a1 b1 : Nat), a0 ≤ a1 → b0 ≤ b1 →
    (tailPairs a b a0 b0 fuel a1 b1).reverse = diagonal (a1 - (tailPairs a b a0 b0 fuel a1 b1).length)
      (b1 - (tailPairs a b a0 b0 fuel a1 b1).length) (tailPairs a b a0 b0 fuel a1 b1).length
  | 0, _, _, _, _ => rfl
  | fuel + 1, a1, b1, ha, hb => by
    unfold tailPairs
    split
    · rename_i h
      have ha' := Nat.le_sub_one_of_lt h.1
      have hb' := Nat.le_sub_one_of_lt h.2.1
      have hle := tailPairs_le (a := a) (b := b) fuel (a1 - 1) (b1 - 1) ha' hb'
      have ih := tailPairs_diagonal fuel (a1 - 1) (b1 - 1) ha' hb'
      rw [List.reverse_cons, ih, List.length_cons, diagonal_snoc, Nat.sub_sub, Nat.sub_sub, Nat.add_comm 1]
      have hi : a1 - ((tailPairs a b a0 b0 fuel (a1 - 1) (b1 - 1)).length + 1) +
          (tailPairs a b a0 b0 fuel (a1 - 1) (b1 - 1)).length = a1 - 1 := by omega
      have hj : b1 - ((tailPairs a b a0 b0 fuel (a1 - 1) (b1 - 1)).length + 1) +
          (tailPairs a b a0 b0 fuel (a1 - 1) (b1 - 1)).length = b1 - 1 := by omega
      rw [hi, hj]
    · rfl

/-- **What a segment begins and ends with alike** is a diagonal at each end, and what is left is between them. -/
theorem edges {seg : Segment} (ha : seg.a0 ≤ seg.a1) (hb : seg.b0 ≤ seg.b1) : ∃ h t,
    trimmed a b seg = ⟨seg.a0 + h, seg.a1 - t, seg.b0 + h, seg.b1 - t⟩ ∧
      edgePairs a b seg = diagonal seg.a0 seg.b0 h ++ diagonal (seg.a1 - t) (seg.b1 - t) t ∧
      seg.a0 + h + t ≤ seg.a1 ∧ seg.b0 + h + t ≤ seg.b1 := by
  have hhead := headPairs_le (a := a) (b := b) (seg.a1 - seg.a0) seg.a0 seg.b0 ha hb
  refine ⟨_, _, rfl, ?_, tailPairs_le _ _ _ hhead.1 hhead.2⟩
  unfold edgePairs
  dsimp only
  rw [tailPairs_diagonal _ _ _ hhead.1 hhead.2, ← headPairs_diagonal]

theorem slice_split (l : List JsString) {x y z : Nat} (hxy : x ≤ y) (hyz : y ≤ z) :
    slice l x z = slice l x y ++ slice l y z := by
  have hlen : z - x = y - x + (z - y) := by omega
  unfold slice
  rw [hlen, List.take_add, List.drop_drop, Nat.add_sub_cancel' hxy]

/-! ## the order of the pairs -/

theorem increasing_all : ∀ (ps : List Pair) (lastI lastJ : Int), (∀ p ∈ ps, lastI < p.i ∧ lastJ < p.j) →
    ps.Pairwise Before → increasing lastI lastJ ps = ps
  | [], _, _, _, _ => rfl
  | p :: ps, lastI, lastJ, h, hps => by
    obtain ⟨hp, hrest⟩ := List.pairwise_cons.1 hps
    unfold increasing
    rw [if_pos (h p List.mem_cons_self), increasing_all ps p.i p.j (fun q hq => ?_) hrest]
    exact ⟨Int.ofNat_lt.2 (hp q hq).1, Int.ofNat_lt.2 (hp q hq).2⟩

def Ordered (p q : Pair) : Prop := Before p q ∨ Before q p

theorem Pair.le_total (p q : Pair) : p.le q ∨ q.le p := by
  unfold Pair.le
  omega

theorem Pair.le_trans {p q r : Pair} (h : p.le q) (h' : q.le r) : p.le r := by
  unfold Pair.le at *
  omega

theorem Ordered.before {p q : Pair} (h : Ordered p q) (hle : p.le q) : Before p q := by
  rcases h with h | h
  · exact h
  · unfold Pair.le at hle
    unfold Before at h
    omega

theorem sorted_before {ps : List Pair} (h : ps.Pairwise Ordered) : (ps.insertionSort Pair.le).Pairwise Before := by
  have hsym : ∀ {p q : Pair}, Ordered p q → Ordered q p := Or.symm
  have hordered : (ps.insertionSort Pair.le).Pairwise Ordered := ((List.perm_insertionSort Pair.le ps).pairwise_iff hsym).2 h
  have : Std.Total Pair.le := ⟨Pair.le_total⟩
  have : IsTrans Pair Pair.le := ⟨fun _ _ _ => Pair.le_trans⟩
  exact (hordered.and (List.pairwise_insertionSort Pair.le ps)).imp fun h => h.1.before h.2

/-! ## the whole text -/

theorem diagonal_length (x y n : Nat) : (diagonal x y n).length = n := by
  rw [diagonal, List.length_map, List.length_range]

theorem edgePairs_lcs {seg : Segment} (ha : seg.a0 ≤ seg.a1) (hb : seg.b0 ≤ seg.b1) (hlen : seg.a1 ≤ a.length) {k : Nat}
    (hk : IsLcs (slice a (trimmed a b seg).a0 (trimmed a b seg).a1) (slice b (trimmed a b seg).b0 (trimmed a b seg).b1) k) :
    IsLcs (slice a seg.a0 seg.a1) (slice b seg.b0 seg.b1) ((edgePairs a b seg).length + k) := by
  obtain ⟨h, t, htrim, hedge, hat, hbt⟩ := edges (a := a) (b := b) ha hb
  have hmatched := edgePairs_matched (b := b) hlen
  rw [hedge] at hmatched
  rw [htrim] at hk
  have hhead := slice_eq_of_diagonal fun p hp => hmatched p (List.mem_append_left _ hp)
  have htail := slice_eq_of_diagonal fun p hp => hmatched p (List.mem_append_right _ hp)
  rw [Nat.sub_add_cancel (by omega), Nat.sub_add_cancel (by omega)] at htail
  have hall := (hk.append (slice b (seg.b1 - t) seg.b1)).prepend (slice b seg.b0 (seg.b0 + h))
  have hcount : (slice b seg.b0 (seg.b0 + h)).length + (k + (slice b (seg.b1 - t) seg.b1).length) =
      (edgePairs a b seg).length + k := by
    rw [← hhead, ← htail, length_slice (by omega), length_slice hlen, hedge, List.length_append, diagonal_length,
      diagonal_length]
    omega
  rw [hcount] at hall
  rw [slice_split a (show seg.a0 ≤ seg.a0 + h by omega) (show seg.a0 + h ≤ seg.a1 by omega),
    slice_split a (show seg.a0 + h ≤ seg.a1 - t by omega) (Nat.sub_le seg.a1 t),
    slice_split b (show seg.b0 ≤ seg.b0 + h by omega) (show seg.b0 + h ≤ seg.b1 by omega),
    slice_split b (show seg.b0 + h ≤ seg.b1 - t by omega) (Nat.sub_le seg.b1 t), hhead, htail]
  exact hall

theorem edgePairs_ordered {seg : Segment} (ha : seg.a0 ≤ seg.a1) (hb : seg.b0 ≤ seg.b1) {mid : List Pair}
    (hmid : mid.Pairwise Before) (hin : ∀ p ∈ mid, Inside (trimmed a b seg) p) :
    (edgePairs a b seg ++ mid).Pairwise Ordered := by
  obtain ⟨h, t, htrim, hedge, hat, hbt⟩ := edges (a := a) (b := b) ha hb
  rw [htrim] at hin
  rw [hedge]
  refine List.pairwise_append.2 ⟨List.pairwise_append.2 ⟨(diagonal_before _ _ h).imp .inl, (diagonal_before _ _ t).imp .inl,
    fun p hp q hq => ?_⟩, hmid.imp .inl, fun p hp q hq => ?_⟩
  · -- what it begins with stands before what it ends with
    have hp' := diagonal_inside _ _ _ p hp
    have hq' := diagonal_inside _ _ _ q hq
    unfold Inside at hp' hq'
    dsimp only at hp' hq'
    refine .inl ⟨?_, ?_⟩ <;> omega
  · -- and what is left stands between them
    have hq' := hin q hq
    rcases List.mem_append.1 hp with hp | hp
    · have hp' := diagonal_inside _ _ _ p hp
      exact .inl ⟨Nat.lt_of_lt_of_le hp'.1.2 hq'.1.1, Nat.lt_of_lt_of_le hp'.2.2 hq'.2.1⟩
    · have hp' := diagonal_inside _ _ _ p hp
      exact .inr ⟨Nat.lt_of_lt_of_le hq'.1.2 hp'.1.1, Nat.lt_of_lt_of_le hq'.2.2 hp'.2.1⟩

def whole (a b : List JsString) : Segment := ⟨0, a.length, 0, b.length⟩

theorem whole_old (a b : List JsString) : (whole a b).a0 ≤ (whole a b).a1 := Nat.zero_le a.length

theorem whole_new (a b : List JsString) : (whole a b).b0 ≤ (whole a b).b1 := Nat.zero_le b.length

/-- **The budget of the exact search**: the sides are not too long, and what is between their edges is not too much. -/
def FitsBudget (a b : List JsString) : Prop :=
  a.length ≤ maxLinesPerSide ∧ b.length ≤ maxLinesPerSide ∧
    ((trimmed a b (whole a b)).a1 - (trimmed a b (whole a b)).a0) *
      ((trimmed a b (whole a b)).b1 - (trimmed a b (whole a b)).b0) ≤ maxLcsCells

instance (a b : List JsString) : Decidable (FitsBudget a b) := inferInstanceAs (Decidable (_ ∧ _ ∧ _))

section Anchor

variable {δ : Type} [LT δ] [DecidableLT δ] (distance : Nat → Nat → Nat → Nat → δ)

theorem expand_fits (h : FitsBudget a b) : ∃ mid, expand distance a b maxSegments [whole a b] =
    edgePairs a b (whole a b) ++ mid ∧ mid.Pairwise Before ∧ (∀ p ∈ mid, Inside (trimmed a b (whole a b)) p) ∧
      IsLcs (slice a (trimmed a b (whole a b)).a0 (trimmed a b (whole a b)).a1)
        (slice b (trimmed a b (whole a b)).b0 (trimmed a b (whole a b)).b1) mid.length := by
  have hnil : ∀ fuel, expand distance a b fuel [] = [] := fun fuel => by cases fuel <;> rfl
  obtain ⟨h', t, htrim, -, hat, hbt⟩ := edges (a := a) (b := b) (whole_old a b) (whole_new a b)
  show ∃ mid, expand distance a b (1999 + 1) [whole a b] = _ ∧ _
  unfold expand
  dsimp only
  rw [hnil]
  split
  · rename_i hempty
    refine ⟨[], rfl, List.Pairwise.nil, fun p hp => absurd hp List.not_mem_nil, ?_⟩
    rcases hempty with hn | hm
    · rw [slice, hn, List.take_zero]
      exact IsLcs.nil_left _
    · rw [slice, slice, hm, List.take_zero]
      exact IsLcs.nil_right _
  · rw [if_pos h.2.2, List.append_nil]
    refine ⟨_, rfl, walk_before _ _ _ _ _ _ _ _, fun p hp => ?_, ?_⟩
    · have hin := walk_inside _ _ _ _ _ _ _ _ p hp
      unfold Inside at hin ⊢
      dsimp only at hin
      omega
    · exact lcsPairs_length (Nat.le_trans (trimmed_le a b _) (Nat.le_refl _)) (by rw [htrim]; exact Nat.sub_le _ _)

/-- **Within the budget** there are as many pairs as a longest common subsequence has lines. -/
theorem collectPairs_longest (h : FitsBudget a b) : IsLcs a b (collectPairs distance a b).length := by
  obtain ⟨mid, hexpand, hmid, hin, hlcs⟩ := expand_fits distance h
  have hall := edgePairs_lcs (whole_old a b) (whole_new a b) (Nat.le_refl _) hlcs
  have hordered := sorted_before (edgePairs_ordered (whole_old a b) (whole_new a b) hmid hin)
  rw [← hexpand] at hordered
  have hlong : ¬ (maxLinesPerSide < a.length ∨ maxLinesPerSide < b.length) := by
    have := h.1
    have := h.2.1
    omega
  unfold collectPairs
  rw [if_neg hlong]
  change IsLcs a b (increasing (-1) (-1) ((expand distance a b maxSegments [whole a b]).insertionSort Pair.le)).length
  rw [increasing_all _ _ _ (fun p _ => ⟨by omega, by omega⟩) hordered, List.length_insertionSort, hexpand, List.length_append]
  have hwa : slice a (whole a b).a0 (whole a b).a1 = a := slice_self a
  have hwb : slice b (whole a b).b0 (whole a b).b1 = b := slice_self b
  rwa [hwa, hwb] at hall

/-- **The line diff is a correct edit script.**  The equal and deleted rows are the old lines with their numbers, the equal
and added rows the new ones; and within the budget of the exact search there are as many equal rows as a longest common
subsequence has lines. -/
theorem diffLines_correct (oldText newText : JsString) :
    oldSide (diffLines distance oldText newText) = numbered 1 (splitLines oldText) ∧
      newSide (diffLines distance oldText newText) = numbered 1 (splitLines newText) ∧
      (FitsBudget (splitLines oldText) (splitLines newText) →
        IsLcs (splitLines oldText) (splitLines newText)
          ((diffLines distance oldText newText).countP (fun r => decide (r.kind = .equal)))) := by
  obtain ⟨hold, hnew, hcount⟩ := diffLines_read distance oldText newText
  refine ⟨hold, hnew, fun h => ?_⟩
  rw [hcount]
  exact collectPairs_longest distance h

end Anchor

end Diff
end MyGpt
