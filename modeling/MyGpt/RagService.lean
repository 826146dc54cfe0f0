import MyGpt.ContextBudget
/-!
# RagService — retrieval over several knowledge bases

`_retrieve_impl` of `rag/rag_service.py`, from the loop over the knowledge bases to the hits of the context pack.  The
database, the vector store and the keyword search answer by knowledge base and by the size of the window asked for.
-/
namespace MyGpt
namespace Retrieval

open Chat (Text)

/-! ## what a request is given -/

structure RagSettings where
  ragTopK : Nat := 5
  ragRetrievalCandidates : Int := 30
  ragMaxFusedCandidates : Int := 60
  ragMaxChunksPerDocument : Int := 3
  ragContextTokens : Int := 6000
  ragHybrid : Bool := true
  ragRrfK : Nat := 60
  ragCompressDedup : Bool := true
  ragMinScore : ℚ := 0
  ragMaxChunksPerKb : Int := 8
  rerankerOverfetch : Nat := 4

structure KnowledgeBase where
  id : Text
  name : Text
  topK : Option Int := none
  scoreThreshold : Option ℚ := none
  rerankEnabled : Option Bool := none
  deriving DecidableEq

/-- The stores behind a request; no answer is a failure.  A chunk is a row of one knowledge base: the keyword search reads
the rows of its knowledge base, and each knowledge base has a vector collection of its own. -/
structure Stores where
  get : Text → Option KnowledgeBase
  keyword : KnowledgeBase → Nat → Option (List SearchHit)
  dense : KnowledgeBase → Nat → Option (List SearchHit)
  owner : Text → Text
  get_id : ∀ id kb, get id = some kb → kb.id = id
  keyword_own : ∀ kb n hits, keyword kb n = some hits → ∀ h ∈ hits, owner h.id = kb.id
  dense_own : ∀ kb n hits, dense kb n = some hits → ∀ h ∈ hits, owner h.id = kb.id

/-- What `make_reranker` gives: nothing, a model that fails, or one that scores a text for the question. -/
inductive Reranker
  | noop
  | failing
  | scoring (relevance : Text → ℚ)

def Reranker.isNoop : Reranker → Bool
  | .noop => true
  | _ => false

structure Request where
  settings : RagSettings
  lettering : Lettering
  count : Text → Nat
  reranker : Reranker
  stores : Stores
  requiresExactMatch : Bool := false
  callerTopK : Nat := 0
  contextBudgetTokens : Option Int := none

/-! ## the settings of a knowledge base -/

/-- `_positive_int`, which `model_capabilities` has as well. -/
def positiveInt (value : Option Int) (default : Nat) : Nat := (Admission.positiveInt value default).toNat

structure KbRetrieval where
  topK : Nat
  scoreThreshold : ℚ
  rerankEnabled : Option Bool
  deriving DecidableEq

def fromKb (settings : RagSettings) (kb : KnowledgeBase) : KbRetrieval :=
  let resolvedTopK := positiveInt kb.topK settings.ragTopK
  { topK :=
      if 0 < settings.ragMaxChunksPerKb then min resolvedTopK settings.ragMaxChunksPerKb.toNat else resolvedTopK
    scoreThreshold :=
      match kb.scoreThreshold with
      | some threshold => if 0 ≤ threshold then threshold else settings.ragMinScore
      | none => settings.ragMinScore
    rerankEnabled := kb.rerankEnabled }

/-- `kb_settings.get(key)` -/
def settingsOf (kbSettings : List (Text × KbRetrieval)) (key : Text) : Option KbRetrieval :=
  (kbSettings.find? (fun e => e.1 = key)).map (·.2)

/-! ## gathering -/

def collectionName (kbId : Text) : Text := "kb_".toList ++ kbId.filter (· ≠ '-')

/-- `_tag_kb` of one hit. -/
def tagKb (kb : KnowledgeBase) (h : SearchHit) : SearchHit :=
  { h with
    payload :=
      { h.payload with
        kbId := some (h.payload.kbId.getD kb.id)
        kbName := some (h.payload.kbName.getD kb.name)
        retriever := some (h.payload.retriever.getD "dense".toList)
        collection := some (h.payload.collection.getD (collectionName kb.id)) } }

structure Gathered where
  kbSettings : List (Text × KbRetrieval) := []
  allV : List SearchHit := []
  allK : List SearchHit := []
  sawKb : Bool := false

namespace Request

variable (r : Request)

def hybrid : Bool := r.settings.ragHybrid || r.requiresExactMatch

def fetchK (kb : KnowledgeBase) : Nat :=
  let topK := (fromKb r.settings kb).topK
  if r.hybrid then max topK (positiveInt (some r.settings.ragRetrievalCandidates) 30)
  else topK * max 1 (if r.reranker.isNoop then 1 else r.settings.rerankerOverfetch)

def keywordHits (kb : KnowledgeBase) : List SearchHit :=
  if r.hybrid then ((r.stores.keyword kb (r.fetchK kb)).getD []).map (tagKb kb) else []

def denseHits (kb : KnowledgeBase) : List SearchHit :=
  ((r.stores.dense kb (r.fetchK kb)).getD []).map (tagKb kb)

def gatherKb (g : Gathered) (kbId : Text) : Gathered :=
  match r.stores.get kbId with
  | none => g
  | some kb =>
    { kbSettings := assign kb.id (fromKb r.settings kb) g.kbSettings
      allV := g.allV ++ r.denseHits kb
      allK := g.allK ++ r.keywordHits kb
      sawKb := true }

def gather (kbIds : List Text) : Gathered := kbIds.foldl r.gatherKb {}

/-! ## fusing -/

def rerankerOf (kbSettings : List (Text × KbRetrieval)) : Reranker :=
  if kbSettings ≠ [] ∧ kbSettings.all (fun e => e.2.rerankEnabled = some false) then .noop else r.reranker

def fused (kbIds : List Text) : List SearchHit :=
  let g := r.gather kbIds
  if r.hybrid then rrfFuse r.settings.ragRrfK [g.allV, g.allK] else g.allV

def fusedLimit : Nat := positiveInt (some r.settings.ragMaxFusedCandidates) 60

end Request

/-- `rerank` of each reranker, over all the hits. -/
def rerank (reranker : Reranker) (hits : List SearchHit) : List SearchHit :=
  match reranker with
  | .noop => hits
  | .failing => bestFirst (·.score) hits
  | .scoring relevance =>
    bestFirst (fun h => h.rerankScore.getD 0)
      (hits.map (fun h => { h with rerankScore := some (relevance (hitText h.payload)) }))

def Request.candidates (r : Request) (kbIds : List Text) : List SearchHit :=
  rerank (r.rerankerOf (r.gather kbIds).kbSettings) ((r.fused kbIds).take r.fusedLimit)

/-! ## what is kept of it -/

/-- `_cap_per_kb`, with how often each knowledge base was seen. -/
def capFrom (kbSettings : List (Text × KbRetrieval)) (seen : Text → Nat) : List SearchHit → List SearchHit
  | [] => []
  | h :: hits =>
    let key := h.payload.kbId.getD []
    match settingsOf kbSettings key with
    | none => h :: capFrom kbSettings seen hits
    | some ks =>
      let seen' := fun k => if k = key then seen k + 1 else seen k
      if ks.topK < seen' key then capFrom kbSettings seen' hits else h :: capFrom kbSettings seen' hits

def capPerKb (kbSettings : List (Text × KbRetrieval)) (hits : List SearchHit) : List SearchHit :=
  if kbSettings = [] then hits else capFrom kbSettings (fun _ => 0) hits

/-- `_cap_per_document`, with the hits counted of each document. -/
def capDocuments (limit : Nat) (counts : Text → Nat) : List SearchHit → List SearchHit
  | [] => []
  | h :: hits =>
    let documentId := if h.payload.documentId = [] then h.id else h.payload.documentId
    if limit ≤ counts documentId then capDocuments limit counts hits
    else h :: capDocuments limit (fun d => if d = documentId then counts d + 1 else counts d) hits

def effectiveScore (h : SearchHit) : ℚ := h.rerankScore.getD h.score

def thresholdOf (kbSettings : List (Text × KbRetrieval)) (default : ℚ) (h : SearchHit) : ℚ :=
  ((settingsOf kbSettings (h.payload.kbId.getD [])).map (·.scoreThreshold)).getD default

namespace Request

variable (r : Request)

def finalK (kbSettings : List (Text × KbRetrieval)) : Nat :=
  if r.callerTopK = 0 then (kbSettings.map (fun e => e.2.topK)).sum else r.callerTopK

def select (kbSettings : List (Text × KbRetrieval)) (hits : List SearchHit) : List SearchHit :=
  let hits := if r.settings.ragCompressDedup then compressContext r.lettering hits else hits
  let hits := if r.callerTopK = 0 then capPerKb kbSettings hits else hits
  let hits := capDocuments (positiveInt (some r.settings.ragMaxChunksPerDocument) 3) (fun _ => 0) hits
  (hits.take (r.finalK kbSettings)).filter (fun h => thresholdOf kbSettings r.settings.ragMinScore h ≤ effectiveScore h)

/-- `retrieve`: the hits whose texts and citations the turn is given. -/
def retrieve (kbIds : List Text) : List SearchHit :=
  if (r.gather kbIds).sawKb then
    packContext r.count r.settings.ragContextTokens r.contextBudgetTokens
      (r.select (r.gather kbIds).kbSettings (r.candidates kbIds))
  else []

end Request

end Retrieval
end MyGpt
