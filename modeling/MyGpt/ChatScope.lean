import MyGpt.Lib.Scan
import MyGpt.Lib.Distinct
import MyGpt.Continuation
/-!
# ChatScope — what a turn retrieves from

The scope of one chat request: the knowledge bases, the documents and whether the user chose them.  The inline path
resolves it in one place (`inlineScope`).  The durable path folds the mentions into the request, writes the request as
texts into the run's input (`runInput`), and the worker resolves the scope from there (`workerScope`).
-/
namespace MyGpt
namespace Scope

open Chat (Text)

/-! ## identifiers -/

def hexDigits : Text := "0123456789abcdef".toList

/-- A `uuid.UUID`: 128 bits, as 32 digits. -/
structure Uuid where
  hex : Text
  digits : ∀ c ∈ hex, c ∈ hexDigits
  length_eq : hex.length = 32
  deriving DecidableEq

def Uuid.str (id : Uuid) : Text :=
  id.hex.take 8 ++ '-' :: ((id.hex.drop 8).take 4 ++ '-' :: ((id.hex.drop 12).take 4 ++
    '-' :: ((id.hex.drop 16).take 4 ++ '-' :: id.hex.drop 20)))

def erase (old : Text) (text : Text) : Text :=
  Scan.sub (fun s => if old.isPrefixOf s then old.length else 0) (fun _ => []) text

def isBrace (c : Char) : Bool := c == '\x7b' || c == '\x7d'

def stripBraces (text : Text) : Text := ((text.dropWhile isBrace).reverse.dropWhile isBrace).reverse

/-- `uuid.UUID(text)`, `none` for a `ValueError`.  Of what `int(hex, 16)` reads, 32 plain digits. -/
def Uuid.parse (text : Text) : Option Uuid :=
  let hex := ((stripBraces (erase "uuid:".toList (erase "urn:".toList text))).filter (· != '-')).map Char.toLower
  if h : (∀ c ∈ hex, c ∈ hexDigits) ∧ hex.length = 32 then some ⟨hex, h.1, h.2⟩ else none

/-! ## the request -/

def maxKbPerRequest : Nat := 5
def maxMentionsPerRequest : Nat := 8

inductive MentionKind
  | kb | doc | file
  deriving DecidableEq

def MentionKind.text : MentionKind → Text
  | .kb => "kb".toList
  | .doc => "doc".toList
  | .file => "file".toList

structure ChatMention where
  kind : MentionKind
  id : Uuid
  deriving DecidableEq

structure Capped (α : Type) (cap : Nat) where
  items : List α
  nodup : items.Nodup
  length_le : items.length ≤ cap

def Capped.empty {α : Type} {cap : Nat} : Capped α cap := ⟨[], List.nodup_nil, Nat.zero_le cap⟩

/-- `_cap_knowledge_bases` and `_cap_mentions`: repeats are dropped, and `none` refuses a list that is still too long. -/
def capItems {α : Type} [DecidableEq α] (cap : Nat) (v : List α) : Option (Capped α cap) :=
  let out := Distinct.adjoin [] v
  if h : out.length ≤ cap then some ⟨out, Distinct.nodup_adjoin List.nodup_nil v, h⟩ else none

structure ChatRequest where
  knowledgeBaseId : Option Uuid
  knowledgeBaseIds : Capped Uuid maxKbPerRequest
  mentions : Capped ChatMention maxMentionsPerRequest
  attachmentIds : List Uuid

/-! ## what it names -/

structure User where
  id : Nat
  role : String
  deriving DecidableEq

structure KnowledgeBase where
  userId : Nat
  deriving DecidableEq

structure Document where
  knowledgeBaseId : Uuid
  deriving DecidableEq

structure Rows where
  knowledgeBase : Uuid → Option KnowledgeBase
  document : Uuid → Option Document

structure AppException where
  statusCode : Nat
  code : String
  message : String
  deriving DecidableEq

def Rows.allows (rows : Rows) (user : User) (id : Uuid) : Bool :=
  (rows.knowledgeBase id).any (fun kb => kb.userId == user.id || user.role == "admin")

/-! ## the mentions -/

/-- `_split_mentions`, the targets of one kind. -/
def mentionIds (kind : MentionKind) (mentions : List ChatMention) : List Uuid :=
  (mentions.filter (fun m => m.kind == kind)).map (·.id)

/-- The document loop of `_apply_mentions`. -/
def addDocuments (rows : Rows) (user : User) (kbIds : List Uuid) : List Uuid → Except AppException (List Uuid)
  | [] => .ok kbIds
  | docId :: docIds =>
    match rows.document docId with
    | none => .error ⟨404, "document_not_found", "Document not found"⟩
    | some doc =>
      if rows.allows user doc.knowledgeBaseId then
        addDocuments rows user (Distinct.adjoin kbIds [doc.knowledgeBaseId]) docIds
      else .error ⟨404, "document_not_found", "Document not found"⟩

/-- What `_apply_mentions` returns, and what it leaves in the request. -/
structure Applied where
  kbIds : List Uuid
  documentIds : List Uuid
  knowledgeBaseIds : List Uuid
  attachmentIds : List Uuid
  deriving DecidableEq

def applyMentions (rows : Rows) (user : User) (request : ChatRequest) (kbIds : List Uuid) : Except AppException Applied :=
  let mentionKbIds := mentionIds .kb request.mentions.items
  let mentionDocIds := mentionIds .doc request.mentions.items
  let mentionFileIds := mentionIds .file request.mentions.items
  match addDocuments rows user kbIds mentionDocIds with
  | .error e => .error e
  | .ok kbIds =>
    let kbIds := Distinct.adjoin kbIds mentionKbIds
    if kbIds.length > maxKbPerRequest then
      .error ⟨400, "too_many_knowledge_bases", "一次最多引用 " ++ toString maxKbPerRequest ++ " 个知识库"⟩
    else
      let merged := (mentionKbIds ≠ [] ∨ mentionDocIds ≠ []) ∧ kbIds ≠ request.knowledgeBaseIds.items
      .ok { kbIds := kbIds, documentIds := mentionDocIds,
            knowledgeBaseIds := if merged then kbIds else request.knowledgeBaseIds.items,
            attachmentIds := Distinct.adjoin request.attachmentIds mentionFileIds }

/-! ## the inline path -/

structure RetrievalScope where
  kbIds : List Uuid
  /-- `mention_doc_ids or None`. -/
  documentIds : Option (List Uuid)
  kbExplicit : Bool
  deriving DecidableEq

def orNone (ids : List Uuid) : Option (List Uuid) := if ids = [] then none else some ids

structure TurnRows where
  conversationKbId : Option Uuid
  modelUserId : Option Nat

def TurnRows.foreignModel (turn : TurnRows) (user : User) : Bool := turn.modelUserId.any (· != user.id)

def baseScope (request : ChatRequest) (turn : TurnRows) : List Uuid × Bool :=
  if request.knowledgeBaseIds.items ≠ [] then (request.knowledgeBaseIds.items, true)
  else
    match request.knowledgeBaseId, turn.conversationKbId with
    | some id, _ => ([id], true)
    | none, some id => ([id], false)
    | none, none => ([], false)

/-- The scope part of `_run_turn_locked`. -/
def inlineScope (rows : Rows) (user : User) (request : ChatRequest) (turn : TurnRows) :
    Except AppException RetrievalScope :=
  let (kbIds, kbExplicit) := baseScope request turn
  match applyMentions rows user request kbIds with
  | .error e => .error e
  | .ok applied =>
    if turn.foreignModel user then .error ⟨404, "model_not_found", "Model config not found"⟩
    else if applied.kbIds.all (rows.allows user) = false then
      .error ⟨404, "knowledge_base_not_found", "Knowledge base not found"⟩
    else
      .ok { kbIds := applied.kbIds, documentIds := orNone applied.documentIds,
            kbExplicit := kbExplicit || request.mentions.items ≠ [] }

/-! ## the durable path -/

/-- The part of `run.input` that the scope is read from. -/
structure RunInput where
  knowledgeBaseId : Option Text
  knowledgeBaseIds : List Text
  /-- `_mentions_on_wire`: kind and id. -/
  mentions : List (Text × Text)
  attachmentIds : List Text
  deriving DecidableEq

/-- The scope part of `create_and_enqueue_durable_run`. -/
def runInput (rows : Rows) (user : User) (request : ChatRequest) (turn : TurnRows) : Except AppException RunInput :=
  if turn.foreignModel user then .error ⟨404, "model_not_found", "Model config not found"⟩
  else
    match applyMentions rows user request request.knowledgeBaseIds.items with
    | .error e => .error e
    | .ok applied =>
      .ok { knowledgeBaseId := request.knowledgeBaseId.map Uuid.str,
            knowledgeBaseIds := applied.knowledgeBaseIds.map Uuid.str,
            mentions := request.mentions.items.map (fun m => (m.kind.text, m.id.str)),
            attachmentIds := applied.attachmentIds.map Uuid.str }

def mentionDocumentIds (raw : List (Text × Text)) : List Uuid :=
  (raw.filter (fun item => item.1 == MentionKind.doc.text)).filterMap (fun item => Uuid.parse item.2)

def given (text : Option Text) : Option Text := text.filter (· ≠ [])

/-- The scope part of `run_durable_turn`. -/
def workerScope (rows : Rows) (user : User) (input : RunInput) (turn : TurnRows) : RetrievalScope :=
  let kbIds := input.knowledgeBaseIds.filterMap Uuid.parse
  let kbIds := if kbIds = [] then ((given input.knowledgeBaseId).bind Uuid.parse).toList else kbIds
  let kbIds := if kbIds = [] then turn.conversationKbId.toList else kbIds
  let kbIds := kbIds.filter (rows.allows user)
  { kbIds := (Distinct.adjoin [] kbIds).take maxKbPerRequest,
    documentIds := orNone (mentionDocumentIds input.mentions),
    kbExplicit := input.knowledgeBaseIds ≠ [] || (given input.knowledgeBaseId).isSome }

def durableScope (rows : Rows) (user : User) (request : ChatRequest) (turn : TurnRows) :
    Except AppException RetrievalScope :=
  (runInput rows user request turn).map (fun input => workerScope rows user input turn)

end Scope
end MyGpt
