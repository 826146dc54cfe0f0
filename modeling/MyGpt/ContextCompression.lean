import MyGpt.RagFusion
import MyGpt.Lib.Greedy
/-!
# ContextCompression — near-duplicates dropped in one pass

`compress_context` at any threshold, whatever the quotient of two counts is taken to be: the hits that stay are apart from one
another, and a hit goes only when it has no tokens or repeats one that stays further in front (`compressAt_spec`).
-/
namespace MyGpt
namespace Retrieval

open Chat (Text)

def tokens (u : Lettering) (h : SearchHit) : Finset Text := wordSet u (hitText h.payload)

section
variable {F : Type} (ratio : Nat → Nat → F)

/-- `inter / (union or 1)`; `ratio` divides as the floats do. -/
def similarity (ws ks : Finset Text) : F := ratio (ws ∩ ks).card (if (ws ∪ ks).card = 0 then 1 else (ws ∪ ks).card)

theorem similarity_comm (ws ks : Finset Text) : similarity ratio ws ks = similarity ratio ks ws := by
  unfold similarity
  rw [Finset.inter_comm, Finset.union_comm]

variable [LinearOrder F] (u : Lettering) (threshold : F)

/-- `compress_context(hits, jaccard_threshold=threshold)`, with the token sets of the hits kept so far. -/
def compressAtFrom (keptSets : List (Finset Text)) : List SearchHit → List SearchHit
  | [] => []
  | h :: hits =>
    let ws := tokens u h
    if ws = ∅ ∨ keptSets.any (fun ks => decide (threshold ≤ similarity ratio ws ks)) then compressAtFrom keptSets hits
    else h :: compressAtFrom (keptSets ++ [ws]) hits

def compressAt (hits : List SearchHit) : List SearchHit := compressAtFrom ratio u threshold [] hits

def tokenless (h : SearchHit) : Bool := decide (tokens u h = ∅)

def similar (h k : SearchHit) : Bool := decide (threshold ≤ similarity ratio (tokens u h) (tokens u k))

theorem compressAtFrom_eq (kept hits : List SearchHit) : compressAtFrom ratio u threshold (kept.map (tokens u)) hits =
    Greedy.keep (tokenless u) (similar ratio u threshold) kept hits := by
  induction hits generalizing kept with
  | nil => rfl
  | cons h hits ih =>
    have hany : (kept.map (tokens u)).any (fun ks => decide (threshold ≤ similarity ratio (tokens u h) ks)) =
        kept.any (similar ratio u threshold h) := List.any_map
    have hrest := ih (kept ++ [h])
    rw [List.map_append, List.map_singleton] at hrest
    rw [compressAtFrom, Greedy.keep, hany, ih kept, hrest]
    simp [tokenless]

def keptPlaces (hits : List SearchHit) : List (SearchHit × Nat) :=
  Greedy.keep (fun p => tokenless u p.1) (fun p q => similar ratio u threshold p.1 q.1) [] hits.zipIdx

theorem keptPlaces_map (hits : List SearchHit) :
    compressAt ratio u threshold hits = (keptPlaces ratio u threshold hits).map Prod.fst := by
  have hkeep : compressAt ratio u threshold hits = Greedy.keep (tokenless u) (similar ratio u threshold) [] hits :=
    compressAtFrom_eq ratio u threshold [] hits
  rw [hkeep]
  unfold keptPlaces
  rw [← Greedy.keep_map, List.zipIdx_map_fst, List.map_nil]

theorem keptPlaces_apart (hits : List SearchHit) : (keptPlaces ratio u threshold hits).Pairwise
    (fun p q => similarity ratio (tokens u p.1) (tokens u q.1) < threshold) := by
  refine (Greedy.keep_pairwise [] hits.zipIdx).imp (fun {p q} h => ?_)
  rw [similarity_comm]
  exact not_le.1 (of_decide_eq_false h)

/-- **What stays and what goes**: the hits that stay are a sublist, at their places; any two of them are less similar than the
threshold; and a hit that goes has no tokens, or is that similar to one that stays and stands further in front. -/
theorem compressAt_spec (hits : List SearchHit) :
    (compressAt ratio u threshold hits).Sublist hits ∧
    ∃ kept : List (SearchHit × Nat), kept.Sublist hits.zipIdx ∧ compressAt ratio u threshold hits = kept.map Prod.fst ∧
      (∀ p ∈ kept, ∀ q ∈ kept, p ≠ q → similarity ratio (tokens u p.1) (tokens u q.1) < threshold) ∧
      ∀ p ∈ hits.zipIdx, p ∉ kept →
        tokens u p.1 = ∅ ∨ ∃ q ∈ kept, q.2 < p.2 ∧ threshold ≤ similarity ratio (tokens u p.1) (tokens u q.1) := by
  have hsublist : (keptPlaces ratio u threshold hits).Sublist hits.zipIdx := Greedy.keep_sublist [] hits.zipIdx
  have hmap := keptPlaces_map ratio u threshold hits
  refine ⟨?_, keptPlaces ratio u threshold hits, hsublist, hmap, ?_, ?_⟩
  · rw [hmap]
    have hfst := hsublist.map Prod.fst
    rwa [List.zipIdx_map_fst] at hfst
  · intro p hp q hq hne
    have hsymm : Std.Symm (fun p q : SearchHit × Nat => similarity ratio (tokens u p.1) (tokens u q.1) < threshold) :=
      ⟨fun p q h => by rwa [similarity_comm]⟩
    exact (keptPlaces_apart ratio u threshold hits).forall hp hq hne
  · rintro p hp hdropped
    have hplaces : hits.zipIdx.Pairwise (fun p q => p.2 < q.2) := by
      rw [← List.pairwise_map (f := Prod.snd) (R := (· < ·)), List.zipIdx_map_snd]
      exact List.pairwise_lt_range'
    obtain ⟨before, after, hsplit⟩ := List.append_of_mem hp
    have hwhy : p ∈ keptPlaces ratio u threshold hits ∨ tokenless u p.1 = true ∨
        (∃ q ∈ ([] : List (SearchHit × Nat)), similar ratio u threshold p.1 q.1 = true) ∨
        ∃ q ∈ before, q ∈ keptPlaces ratio u threshold hits ∧ similar ratio u threshold p.1 q.1 = true := by
      unfold keptPlaces
      rw [hsplit]
      exact Greedy.keep_dropped before after []
    rcases hwhy with hkept | hskip | ⟨q, hq, -⟩ | ⟨q, hq, hkept, hnear⟩
    · exact absurd hkept hdropped
    · exact .inl (of_decide_eq_true hskip)
    · cases hq
    · rw [hsplit, List.pairwise_append] at hplaces
      exact .inr ⟨q, hkept, hplaces.2.2 q hq p List.mem_cons_self, of_decide_eq_true hnear⟩

theorem compressContext_eq (hits : List SearchHit) :
    compressContext u hits = compressAt (fun inter union => (inter : ℚ) / (union : ℚ)) u (17 / 20) hits := by
  suffices hfrom : ∀ keptSets, compressFrom u keptSets hits =
      compressAtFrom (fun inter union => (inter : ℚ) / (union : ℚ)) u (17 / 20) keptSets hits from hfrom []
  induction hits with
  | nil => exact fun _ => rfl
  | cons h hits ih =>
    intro keptSets
    rw [compressFrom, compressAtFrom, ih, ih]
    rfl

end

end Retrieval
end MyGpt
