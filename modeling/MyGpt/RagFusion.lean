import MyGpt.AnswerClaims
import MyGpt.Lib.Gathering
import Mathlib.Algebra.BigOperators.Group.List.Basic
import Mathlib.Algebra.Order.Field.Basic
import Mathlib.Algebra.Order.Field.Rat
import Mathlib.Data.Finset.Card
import Mathlib.Data.List.Sort
/-!
# RagFusion — fusing ranked hits, and dropping near-duplicates

`rag/fusion.py` over the hits of `rag/base.py`.  Scores are the rationals the floats of the source stand for.
-/
namespace MyGpt
namespace Retrieval

open Chat (Text)

/-- `d[key] = value` of a dict: an old key keeps its place. -/
def assign {β : Type} (key : Text) (value : β) : List (Text × β) → List (Text × β)
  | [] => [(key, value)]
  | (k, v) :: rest => if k = key then (k, value) :: rest else (k, v) :: assign key value rest

structure Payload where
  text : Text := []
  content : Text := []
  documentId : Text := []
  documentName : Option Text := none
  source : Text := []
  heading : Text := []
  page : Option Int := none
  chunkId : Option Text := none
  chunkIndex : Option Int := none
  charStart : Option Int := none
  charEnd : Option Int := none
  kbId : Option Text := none
  kbName : Option Text := none
  retriever : Option Text := none
  collection : Option Text := none
  retrievalChannels : List (Text × Nat × ℚ) := []
  retrievers : List Text := []
  deriving DecidableEq

structure SearchHit where
  id : Text
  score : ℚ
  payload : Payload := {}
  rerankScore : Option ℚ := none
  deriving DecidableEq

/-- `payload.get("text") or payload.get("content") or ""` -/
def hitText (payload : Payload) : Text := if payload.text = [] then payload.content else payload.text

/-! ## reciprocal rank fusion -/

/-- `str(h.payload.get("retriever") or "unknown")` -/
def channelTag (payload : Payload) : Text :=
  match payload.retriever with
  | some (c :: tag) => c :: tag
  | _ => "unknown".toList

def record (rank : Nat) (h : SearchHit) (payload : Payload) : Payload :=
  let tag := channelTag h.payload
  { payload with
    retrievalChannels := assign tag (rank, h.score) payload.retrievalChannels
    retrievers := if payload.retrievers.contains tag then payload.retrievers else payload.retrievers ++ [tag] }

/-- `1.0 / (k + rank)` -/
def weight (k rank : Nat) : ℚ := 1 / ((k + rank : Nat) : ℚ)

/-- One hit into `scores` and `payload`, which have the same keys in the same order. -/
def fuseHit (k rank : Nat) (h : SearchHit) : List SearchHit → List SearchHit
  | [] => [{ id := h.id, score := weight k rank, payload := record rank h h.payload }]
  | e :: fused =>
    if e.id = h.id then { e with score := e.score + weight k rank, payload := record rank h e.payload } :: fused
    else e :: fuseHit k rank h fused

def fuseRanked (k : Nat) : Nat → List SearchHit → List SearchHit → List SearchHit
  | _, [], fused => fused
  | rank, h :: hits, fused => fuseRanked k (rank + 1) hits (fuseHit k rank h fused)

/-- `sorted(hits, key=.., reverse=True)`, which is stable. -/
def bestFirst (key : SearchHit → ℚ) (hits : List SearchHit) : List SearchHit :=
  hits.insertionSort (fun h h' => key h' ≤ key h)

def rrfFuse (k : Nat) (rankedLists : List (List SearchHit)) : List SearchHit :=
  bestFirst (·.score) (rankedLists.foldl (fun fused hits => fuseRanked k 1 hits fused) [])

/-! ## near-duplicates -/

/-- What Unicode says of a text: `str.lower`, and the characters of `\\w`. -/
structure Lettering where
  lower : Text → Text
  isWord : Char → Bool

def isCjk (c : Char) : Bool :=
  let n := c.toNat
  (0x3400 ≤ n && n ≤ 0x4dbf) || (0x4e00 ≤ n && n ≤ 0x9fff) || (0x3040 ≤ n && n ≤ 0x30ff) || (0xac00 ≤ n && n ≤ 0xd7af)

def runs (p : Char → Bool) (text : Text) : List Text := (text.splitOnP (fun c => !p c)).filter (fun run => !run.isEmpty)

def grams (run : Text) : List Text :=
  match run with
  | [c] => [[c]]
  | _ => (run.zip run.tail).map (fun cc => [cc.1, cc.2])

def wordSet (u : Lettering) (text : Text) : Finset Text :=
  let value := u.lower text
  let words := (value.splitOnP isCjk).flatMap (runs u.isWord)
  (words.filter (fun word => decide (1 < word.length) || word.all Rag.isDigit)).toFinset ∪
    ((runs isCjk value).flatMap grams).toFinset

/-- `inter / (union or 1) >= 0.85` -/
def nearDuplicate (ws ks : Finset Text) : Bool :=
  decide ((17 / 20 : ℚ) ≤ ((ws ∩ ks).card : ℚ) / ((if (ws ∪ ks).card = 0 then 1 else (ws ∪ ks).card : Nat) : ℚ))

/-- `compress_context`, with the word sets of the hits kept so far. -/
def compressFrom (u : Lettering) (keptSets : List (Finset Text)) : List SearchHit → List SearchHit
  | [] => []
  | h :: hits =>
    let ws := wordSet u (hitText h.payload)
    if ws = ∅ ∨ keptSets.any (nearDuplicate ws) then compressFrom u keptSets hits
    else h :: compressFrom u (keptSets ++ [ws]) hits

def compressContext (u : Lettering) (hits : List SearchHit) : List SearchHit := compressFrom u [] hits

/-! ## what fusion makes of a chunk's score -/

def scoresOf (hits : List SearchHit) (x : Text) : List ℚ := (hits.filter (fun h => h.id = x)).map (·.score)

def scoreOf (hits : List SearchHit) (x : Text) : ℚ := (scoresOf hits x).sum

@[simp] theorem scoreOf_nil (x : Text) : scoreOf [] x = 0 := rfl

theorem scoreOf_cons (h : SearchHit) (hits : List SearchHit) (x : Text) :
    scoreOf (h :: hits) x = (if h.id = x then h.score else 0) + scoreOf hits x := by
  unfold scoreOf scoresOf
  by_cases hx : h.id = x
  · simp [hx]
  · simp [hx]

theorem scoreOf_perm {hits hits' : List SearchHit} (h : hits.Perm hits') (x : Text) : scoreOf hits x = scoreOf hits' x :=
  ((h.filter _).map _).sum_eq

theorem scoreOf_fuseHit (k rank : Nat) (h : SearchHit) (fused : List SearchHit) (x : Text) :
    scoreOf (fuseHit k rank h fused) x = scoreOf fused x + (if h.id = x then weight k rank else 0) := by
  induction fused with
  | nil => simp [fuseHit, scoreOf_cons]
  | cons e fused ih =>
    rw [fuseHit]
    split
    · rename_i he
      rw [scoreOf_cons, scoreOf_cons]
      by_cases hx : h.id = x
      · rw [if_pos (he.trans hx), if_pos (he.trans hx), if_pos hx]
        exact add_right_comm _ _ _
      · rw [if_neg (fun e' => hx (he.symm.trans e')), if_neg (fun e' => hx (he.symm.trans e')), if_neg hx, add_zero]
    · rw [scoreOf_cons, scoreOf_cons, ih, add_assoc]

theorem scoreOf_fuseRanked (k : Nat) (hits fused : List SearchHit) (rank : Nat) (x : Text) :
    scoreOf (fuseRanked k rank hits fused) x =
      scoreOf fused x + Gathering.rankSum (weight k) x rank (hits.map (·.id)) := by
  induction hits generalizing rank fused with
  | nil => simp [fuseRanked, Gathering.rankSum]
  | cons h hits ih => rw [fuseRanked, ih, scoreOf_fuseHit, List.map_cons, Gathering.rankSum, add_assoc]

theorem bestFirst_perm (key : SearchHit → ℚ) (hits : List SearchHit) : (bestFirst key hits).Perm hits :=
  List.perm_insertionSort _ hits

theorem scoreOf_rrfFuse (k : Nat) (v l : List SearchHit) (x : Text) : scoreOf (rrfFuse k [v, l]) x =
    Gathering.rankSum (weight k) x 1 (v.map (·.id)) + Gathering.rankSum (weight k) x 1 (l.map (·.id)) := by
  unfold rrfFuse
  rw [scoreOf_perm (bestFirst_perm _ _)]
  simp only [List.foldl_cons, List.foldl_nil]
  rw [scoreOf_fuseRanked, scoreOf_fuseRanked, scoreOf_nil, zero_add]

theorem weight_lt (k : Nat) {m n : Nat} (hm : 0 < m) (h : m < n) : weight k n < weight k m := by
  unfold weight
  apply one_div_lt_one_div_of_lt
  · exact_mod_cast Nat.add_pos_right k hm
  · exact_mod_cast Nat.add_lt_add_left h k

/-! ## sorting by a score -/

def Untied (key : SearchHit → ℚ) (hits : List SearchHit) : Prop := ∀ h ∈ hits, ∀ h' ∈ hits, key h = key h' → h = h'

theorem bestFirst_sorted (key : SearchHit → ℚ) (hits : List SearchHit) :
    (bestFirst key hits).Pairwise (fun h h' => key h' ≤ key h) := by
  have : Std.Total (fun h h' : SearchHit => key h' ≤ key h) := ⟨fun h h' => le_total (key h') (key h)⟩
  have : IsTrans SearchHit (fun h h' => key h' ≤ key h) := ⟨fun a b c hab hbc => le_trans hbc hab⟩
  exact List.pairwise_insertionSort _ hits

theorem bestFirst_eq_of_perm {key : SearchHit → ℚ} {hits hits' : List SearchHit} (hu : Untied key hits)
    (hp : hits'.Perm hits) : bestFirst key hits' = bestFirst key hits := by
  have hperm : (bestFirst key hits').Perm (bestFirst key hits) :=
    (bestFirst_perm key hits').trans (hp.trans (bestFirst_perm key hits).symm)
  refine hperm.eq_of_pairwise ?_ (bestFirst_sorted key hits') (bestFirst_sorted key hits)
  intro a b ha hb hba hab
  exact hu a (hp.mem_iff.1 ((bestFirst_perm key hits').mem_iff.1 ha)) b ((bestFirst_perm key hits).mem_iff.1 hb)
    (le_antisymm hab hba)

end Retrieval
end MyGpt
