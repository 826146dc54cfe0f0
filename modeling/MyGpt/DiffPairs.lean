import MyGpt.DiffLines
/-!
# DiffPairs — every pair of the line diff stands for one line

Each way of pairing takes lines that are alike: what a segment begins and ends with, the cells of the direction matrix that
go both ways, a line that is once on both sides.  So the pairs that `collectPairs` keeps are a chain, and the rows read back
as the two texts.
-/
namespace MyGpt
namespace Diff

open Sse (JsString)
open Joins (slice)

variable {a b : List JsString}

theorem getElem?_of_slice {l : List JsString} {x y i : Nat} {line : JsString} (h : (slice l x y)[i]? = some line) :
    l[x + i]? = some line := by
  unfold slice at h
  rw [List.getElem?_take] at h
  split at h
  · rwa [List.getElem?_drop] at h
  · exact absurd h (by simp)

/-! ## what a segment begins and ends with -/

theorem matched_of_eq {i j : Nat} (hi : i < a.length) (heq : a[i]? = b[j]?) : Matched a b ⟨i, j⟩ :=
  ⟨a[i], List.getElem?_eq_getElem hi, heq ▸ List.getElem?_eq_getElem hi⟩

theorem headPairs_matched {a1 b1 : Nat} (ha : a1 ≤ a.length) : ∀ (fuel a0 b0 : Nat),
    ∀ p ∈ headPairs a b a1 b1 fuel a0 b0, Matched a b p
  | 0, _, _, p, hp => absurd hp List.not_mem_nil
  | fuel + 1, a0, b0, p, hp => by
    unfold headPairs at hp
    split at hp
    · rename_i h
      rcases List.mem_cons.1 hp with rfl | hp
      · exact matched_of_eq (Nat.lt_of_lt_of_le h.1 ha) h.2.2
      · exact headPairs_matched ha fuel (a0 + 1) (b0 + 1) p hp
    · exact absurd hp List.not_mem_nil

theorem tailPairs_matched {a0 b0 : Nat} : ∀ (fuel a1 b1 : Nat), a1 ≤ a.length →
    ∀ p ∈ tailPairs a b a0 b0 fuel a1 b1, Matched a b p
  | 0, _, _, _, p, hp => absurd hp List.not_mem_nil
  | fuel + 1, a1, b1, ha, p, hp => by
    unfold tailPairs at hp
    split at hp
    · rename_i h
      rcases List.mem_cons.1 hp with rfl | hp
      · exact matched_of_eq (by omega) h.2.2
      · exact tailPairs_matched fuel (a1 - 1) (b1 - 1) (by omega) p hp
    · exact absurd hp List.not_mem_nil

theorem edgePairs_matched {seg : Segment} (ha : seg.a1 ≤ a.length) : ∀ p ∈ edgePairs a b seg, Matched a b p := by
  intro p hp
  unfold edgePairs at hp
  rcases List.mem_append.1 hp with hp | hp
  · exact headPairs_matched ha _ _ _ p hp
  · exact tailPairs_matched _ _ _ ha p (List.mem_reverse.1 hp)

/-! ## the direction matrix -/

theorem lcsRow_both (line : JsString) : ∀ (b : List JsString) (next : List Nat) (j : Nat),
    (lcsRow line b next).2[j]? = some .both → b[j]? = some line
  | [], _, j, h => by simp [lcsRow] at h
  | c :: bs, next, j, h => by
    have ih := lcsRow_both line bs next.tail
    unfold lcsRow at h
    dsimp only at h
    cases j with
    | zero =>
      split at h
      · rename_i hc
        rw [List.getElem?_cons_zero, hc]
      · split at h <;> exact absurd h (by simp)
    | succ j =>
      rw [List.getElem?_cons_succ]
      split at h
      · exact ih j h
      · split at h <;> exact ih j h

theorem lcsTable_both (b : List JsString) : ∀ (a : List JsString) (i j : Nat),
    dirAt (lcsTable b a).2 i j = some .both → ∃ line, a[i]? = some line ∧ b[j]? = some line
  | [], i, j, h => by simp [dirAt, lcsTable] at h
  | line :: a, 0, j, h => by
    refine ⟨line, List.getElem?_cons_zero, lcsRow_both line b (lcsTable b a).1 j ?_⟩
    simpa [dirAt, lcsTable] using h
  | line :: a, i + 1, j, h => by
    rw [List.getElem?_cons_succ]
    exact lcsTable_both b a i j (by simpa [dirAt, lcsTable] using h)

theorem walk_both (dirs : List (List Dir)) (n m a0 b0 : Nat) : ∀ (fuel i j : Nat),
    ∀ p ∈ walk dirs n m a0 b0 fuel i j, ∃ i' j', p = ⟨a0 + i', b0 + j'⟩ ∧ dirAt dirs i' j' = some .both
  | 0, _, _, p, hp => absurd hp List.not_mem_nil
  | fuel + 1, i, j, p, hp => by
    unfold walk at hp
    split at hp
    · split at hp
      · rename_i hdir
        rcases List.mem_cons.1 hp with rfl | hp
        · exact ⟨i, j, rfl, hdir⟩
        · exact walk_both dirs n m a0 b0 fuel (i + 1) (j + 1) p hp
      · exact walk_both dirs n m a0 b0 fuel (i + 1) j p hp
      · exact walk_both dirs n m a0 b0 fuel i (j + 1) p hp
    · exact absurd hp List.not_mem_nil

theorem lcsPairs_matched {a0 a1 b0 b1 : Nat} : ∀ p ∈ lcsPairs a b a0 a1 b0 b1, Matched a b p := by
  intro p hp
  obtain ⟨i, j, rfl, hdir⟩ := walk_both _ _ _ _ _ _ _ _ p hp
  obtain ⟨line, hi, hj⟩ := lcsTable_both _ _ i j hdir
  exact ⟨line, getElem?_of_slice hi, getElem?_of_slice hj⟩

/-! ## anchors -/

def Seen (a b : List JsString) (e : JsString × Hit) : Prop :=
  a[e.2.ia]? = some e.1 ∧ ∀ j, e.2.jb = some j → b[j]? = some e.1

theorem noteOld_seen {seen : List (JsString × Hit)} {ia : Nat} {line : JsString} (hline : a[ia]? = some line)
    (h : ∀ e ∈ seen, Seen a b e) : ∀ e ∈ noteOld seen ia line, Seen a b e := by
  intro e he
  unfold noteOld at he
  split at he
  · obtain ⟨e', he', rfl⟩ := List.mem_map.1 he
    split
    · exact h e' he'
    · exact h e' he'
  · rcases List.mem_append.1 he with he | he
    · exact h e he
    · rw [List.mem_singleton.1 he]
      exact ⟨hline, fun j hj => absurd hj (by simp)⟩

theorem noteNew_seen {seen : List (JsString × Hit)} {jb : Nat} {line : JsString} (hline : b[jb]? = some line)
    (h : ∀ e ∈ seen, Seen a b e) : ∀ e ∈ noteNew seen jb line, Seen a b e := by
  intro e he
  obtain ⟨e', he', rfl⟩ := List.mem_map.1 he
  split
  · rename_i heq
    split
    · exact h e' he'
    · refine ⟨(h e' he').1, fun j hj => ?_⟩
      rw [← Option.some.inj hj, heq]
      exact hline
  · exact h e' he'

theorem hits_seen (a b : List JsString) : ∀ e ∈ hits a b, Seen a b e := by
  unfold hits
  apply List.foldlRecOn (motive := fun seen => ∀ e ∈ seen, Seen a b e)
  · apply List.foldlRecOn (motive := fun seen => ∀ e ∈ seen, Seen a b e)
    · exact fun e he => absurd he List.not_mem_nil
    · exact fun seen h p hp => noteOld_seen (List.mem_zipIdx_iff_getElem?.1 hp) h
  · exact fun seen h p hp => noteNew_seen (List.mem_zipIdx_iff_getElem?.1 hp) h

section Anchor

variable {δ : Type} [LT δ] [DecidableLT δ] (distance : Nat → Nat → Nat → Nat → δ)

theorem nearer_from {n m : Nat} {best : Option (δ × Nat × Nat)} {hit : Hit} {r : δ × Nat × Nat}
    (h : nearer distance n m best hit = some r) : best = some r ∨ (hit.ia = r.2.1 ∧ hit.jb = some r.2.2) := by
  unfold nearer at h
  split at h
  · exact .inl h
  · rename_i jb hjb
    split at h
    · exact .inl h
    · split at h
      · rw [← Option.some.inj h]
        exact .inr ⟨rfl, hjb⟩
      · split at h
        · rw [← Option.some.inj h]
          exact .inr ⟨rfl, hjb⟩
        · exact .inl h

theorem findAnchor_matched {a0 a1 b0 b1 ia jb : Nat} (h : findAnchor distance a b a0 a1 b0 b1 = some (ia, jb)) :
    Matched a b ⟨a0 + ia, b0 + jb⟩ := by
  have hall : ∀ r, ((hits (slice a a0 a1) (slice b b0 b1)).map (·.2)).foldl (nearer distance (a1 - a0) (b1 - b0)) none =
      some r → ∃ line, (slice a a0 a1)[r.2.1]? = some line ∧ (slice b b0 b1)[r.2.2]? = some line := by
    apply List.foldlRecOn (motive := fun (best : Option (δ × Nat × Nat)) => ∀ r, best = some r →
      ∃ line, (slice a a0 a1)[r.2.1]? = some line ∧ (slice b b0 b1)[r.2.2]? = some line)
    · exact fun r hr => absurd hr (by simp)
    · intro best hbest hit hhit r hr
      rcases nearer_from distance hr with hr | ⟨hia, hjb⟩
      · exact hbest r hr
      · obtain ⟨e, he, rfl⟩ := List.mem_map.1 hhit
        have hseen := hits_seen _ _ e he
        exact ⟨e.1, hia ▸ hseen.1, hseen.2 _ hjb⟩
  obtain ⟨r, hr, hplace⟩ := Option.map_eq_some_iff.1 h
  obtain ⟨line, hi, hj⟩ := hall r hr
  rw [hplace] at hi hj
  exact ⟨line, getElem?_of_slice hi, getElem?_of_slice hj⟩

/-! ## the loop -/

theorem trimmed_le (a b : List JsString) (seg : Segment) : (trimmed a b seg).a1 ≤ seg.a1 := Nat.sub_le _ _

theorem expand_matched (a b : List JsString) : ∀ (fuel : Nat) (stack : List Segment),
    (∀ seg ∈ stack, seg.a1 ≤ a.length) → ∀ p ∈ expand distance a b fuel stack, Matched a b p
  | 0, _, _, p, hp => absurd hp List.not_mem_nil
  | _ + 1, [], _, p, hp => absurd hp List.not_mem_nil
  | fuel + 1, seg :: stack, h, p, hp => by
    have hseg := h seg List.mem_cons_self
    have hstack : ∀ s ∈ stack, s.a1 ≤ a.length := fun s hs => h s (List.mem_cons_of_mem _ hs)
    unfold expand at hp
    rcases List.mem_append.1 hp with hp | hp
    · exact edgePairs_matched hseg p hp
    · split at hp
      · exact expand_matched a b fuel stack hstack p hp
      · split at hp
        · rcases List.mem_append.1 hp with hp | hp
          · exact lcsPairs_matched p hp
          · exact expand_matched a b fuel stack hstack p hp
        · split at hp
          · exact expand_matched a b fuel stack hstack p hp
          · rename_i ia jb hanchor
            have hmatched := findAnchor_matched distance hanchor
            rcases List.mem_cons.1 hp with rfl | hp
            · exact hmatched
            · refine expand_matched a b fuel _ ?_ p hp
              -- the two parts of the segment end where the anchor is and where it ends itself
              obtain ⟨line, hline, -⟩ := hmatched
              have hlt := (List.getElem?_eq_some_iff.1 hline).1
              intro s hs
              rcases List.mem_cons.1 hs with rfl | hs
              · exact Nat.le_of_lt hlt
              · rcases List.mem_cons.1 hs with rfl | hs
                · exact Nat.le_trans (trimmed_le a b seg) hseg
                · exact hstack s hs

theorem increasing_chain : ∀ (ps : List Pair) (ai bi : Nat), (∀ p ∈ ps, Matched a b p) →
    Chain a b ai bi (increasing ((ai : Int) - 1) ((bi : Int) - 1) ps)
  | [], _, _, _ => trivial
  | p :: ps, ai, bi, h => by
    have hrest : ∀ q ∈ ps, Matched a b q := fun q hq => h q (List.mem_cons_of_mem _ hq)
    unfold increasing
    split
    · rename_i hlt
      have ih := increasing_chain ps (p.i + 1) (p.j + 1) hrest
      have hi : ((p.i + 1 : Nat) : Int) - 1 = p.i := by omega
      have hj : ((p.j + 1 : Nat) : Int) - 1 = p.j := by omega
      rw [hi, hj] at ih
      exact ⟨by omega, by omega, h p List.mem_cons_self, ih⟩
    · exact increasing_chain ps ai bi hrest

theorem collectPairs_chain (a b : List JsString) : Chain a b 0 0 (collectPairs distance a b) := by
  unfold collectPairs
  split
  · trivial
  · apply increasing_chain
    intro p hp
    refine expand_matched distance a b maxSegments _ ?_ p ((List.perm_insertionSort _ _).mem_iff.1 hp)
    intro seg hseg
    rw [List.mem_singleton.1 hseg]

/-- **Every diff reads back**: its rows are the two texts, and there is an equal row for each pair. -/
theorem diffLines_read (oldText newText : JsString) :
    oldSide (diffLines distance oldText newText) = numbered 1 (splitLines oldText) ∧
      newSide (diffLines distance oldText newText) = numbered 1 (splitLines newText) ∧
      (diffLines distance oldText newText).countP (fun r => decide (r.kind = .equal)) =
        (collectPairs distance (splitLines oldText) (splitLines newText)).length := by
  have h := rows_read _ _ _ 0 0 (Nat.zero_le _) (Nat.zero_le _)
    (collectPairs_chain distance (splitLines oldText) (splitLines newText))
  rwa [List.drop_zero, List.drop_zero] at h

end Anchor

end Diff
end MyGpt
