import MyGpt.JsStrings
import MyGpt.Lib.Keyed
import MyGpt.Lib.Marks
/-!
# InlineRefs — references in the text of a message, and how one is put in

`lib/inline-refs.ts`.  A reference is a token in the text, `@[label](kind:id)`.  Its label has no bracket, so what a token is
stands in its own characters (`tokenRe_iff`), and the tokens of a text are marks that never overlap (`tokenReader`).
`insertMention` of `lib/mention-insert.ts` puts the target that is picked in the place of what is being typed, or of nothing
at the caret, unless a limit is reached.
-/
namespace MyGpt
namespace Mentions

open Sse (JsString lf cr)
open Js (trim isBlank)

def blank : UInt16 := 32
def leftBracket : UInt16 := 0x5b
def rightBracket : UInt16 := 0x5d
def leftParen : UInt16 := 0x28
def rightParen : UInt16 := 0x29
def colon : UInt16 := 0x3a
def hyphen : UInt16 := 0x2d
def underscore : UInt16 := 0x5f
def atSign : UInt16 := 0x40

def wideAtSign : UInt16 := 0xff20

def literal (s : String) : JsString := Sse.ascii s

inductive InlineRefKind
  | kb | doc | file
  deriving DecidableEq

def refKinds : List InlineRefKind := [.kb, .doc, .file]

def InlineRefKind.name : InlineRefKind → JsString
  | .kb => literal "kb"
  | .doc => literal "doc"
  | .file => literal "file"

/-- `REF_KIND_LABEL`. -/
def InlineRefKind.label : InlineRefKind → JsString
  | .kb => literal "知识库"
  | .doc => literal "文档"
  | .file => literal "文件"

structure InlineRef where
  kind : InlineRefKind
  id : JsString
  label : JsString
  deriving DecidableEq

def maxRefLabel : Nat := 80

def maxMentionQuery : Nat := 40

/-! ## tokens -/

/-- `MENTION_TRIGGERS`. -/
def isTrigger (c : UInt16) : Bool := c = atSign || c = wideAtSign

def isHexDigit (c : UInt16) : Bool := (0x30 ≤ c && c ≤ 0x39) || (0x61 ≤ c && c ≤ 0x66) || (0x41 ≤ c && c ≤ 0x46)

def uuidLength : Nat := 36

/-- `UUID_SOURCE`. -/
def isUuid (id : JsString) : Bool :=
  id.length = uuidLength && id.zipIdx.all (fun (c, i) => if [8, 13, 18, 23].contains i then c = hyphen else isHexDigit c)

/-- `[^\[\]\n]` -/
def inLabel (c : UInt16) : Bool := c ≠ leftBracket && c ≠ rightBracket && c ≠ lf

/-- `{1,80}` -/
def labelFits (label : JsString) : Bool := 0 < label.length && label.length ≤ maxRefLabel

def targetStart (kind : InlineRefKind) : JsString := [rightBracket, leftParen] ++ kind.name ++ [colon]

def targetText (kind : InlineRefKind) (id : JsString) : JsString := targetStart kind ++ id ++ [rightParen]

def readId (kind : InlineRefKind) (text : JsString) : Option JsString :=
  let id := (text.drop (targetStart kind).length).take uuidLength
  if isUuid id && (targetText kind id).isPrefixOf text then some id else none

/-- `\]\((kb|doc|file):(UUID)\)` at the head. -/
def readTarget (text : JsString) : Option (InlineRefKind × JsString) :=
  refKinds.findSome? (fun kind => (readId kind text).map (fun id => (kind, id)))

/-- `TOKEN_SOURCE` at the head of a text, with its length; a label runs to the first character that no label has. -/
def tokenRe (fits : JsString → Bool) : JsString → Option (InlineRef × Nat)
  | trigger :: bracket :: rest =>
    let label := rest.takeWhile inLabel
    if isTrigger trigger && bracket = leftBracket && fits label then
      (readTarget (rest.dropWhile inLabel)).map (fun (kind, id) =>
        ({ kind, id, label }, 2 + label.length + (targetText kind id).length))
    else none
  | _ => none

def spell (trigger : UInt16) (ref : InlineRef) : JsString :=
  trigger :: leftBracket :: (ref.label ++ targetText ref.kind ref.id)

/-! ### what a token is -/

theorem isHexDigit_or_hyphen {id : JsString} (h : isUuid id = true) : ∀ c ∈ id, isHexDigit c = true ∨ c = hyphen := by
  intro c hc
  rw [isUuid, Bool.and_eq_true, List.all_eq_true] at h
  obtain ⟨i, hi, rfl⟩ := List.mem_iff_getElem.1 hc
  have hat := h.2 (id[i], i) (List.mem_zipIdx_iff_getElem?.2 (by simp))
  simp only at hat
  split at hat
  · exact .inr (of_decide_eq_true hat)
  · exact .inl hat

theorem uuid_length {id : JsString} (h : isUuid id = true) : id.length = uuidLength := by
  rw [isUuid, Bool.and_eq_true, decide_eq_true_eq] at h
  exact h.1

theorem readId_iff {kind : InlineRefKind} {text id : JsString} :
    readId kind text = some id ↔ isUuid id = true ∧ targetText kind id <+: text := by
  unfold readId
  constructor
  · intro h
    obtain ⟨hcond, hid⟩ := Option.ite_none_right_eq_some.1 h
    cases hid
    rwa [Bool.and_eq_true, List.isPrefixOf_iff_prefix] at hcond
  · rintro ⟨hid, rest, rfl⟩
    have htake : ((targetText kind id ++ rest).drop (targetStart kind).length).take uuidLength = id := by
      rw [targetText, List.append_assoc, List.append_assoc, List.drop_left, List.take_left' (uuid_length hid)]
    have hprefix : (targetText kind id).isPrefixOf (targetText kind id ++ rest) = true :=
      List.isPrefixOf_iff_prefix.2 (List.prefix_append _ rest)
    simp only [htake, hid, hprefix, Bool.and_self, if_true]

theorem name_inj : ∀ {kind kind' : InlineRefKind}, kind.name.head? = kind'.name.head? → kind = kind' := by
  intro kind kind'
  cases kind <;> cases kind' <;> decide

theorem getElem?_targetText (kind : InlineRefKind) (id rest : JsString) :
    (targetText kind id ++ rest)[2]? = kind.name.head? := by
  cases kind <;> rfl

theorem readTarget_iff {text id : JsString} {kind : InlineRefKind} :
    readTarget text = some (kind, id) ↔ isUuid id = true ∧ targetText kind id <+: text := by
  rw [← readId_iff]
  constructor
  · intro h
    obtain ⟨kind', -, hread⟩ := List.exists_of_findSome?_eq_some h
    obtain ⟨id', hid, heq⟩ := Option.map_eq_some_iff.1 hread
    obtain ⟨⟩ := heq
    exact hid
  · intro h
    have hother : ∀ kind', kind' ≠ kind → readId kind' text = none := by
      intro kind' hne
      cases hread : readId kind' text with
      | none => rfl
      | some id' =>
        -- the third character tells the kind
        obtain ⟨-, rest, hrest⟩ := readId_iff.1 h
        obtain ⟨-, rest', hrest'⟩ := readId_iff.1 hread
        have hthird := congrArg (fun t => t[2]?) (hrest'.trans hrest.symm)
        simp only [getElem?_targetText] at hthird
        exact absurd (name_inj hthird) hne
    cases kind with
    | kb => simp [readTarget, refKinds, h]
    | doc => simp [readTarget, refKinds, h, hother .kb (by decide)]
    | file => simp [readTarget, refKinds, h, hother .kb (by decide), hother .doc (by decide)]

structure Proper (fits : JsString → Bool) (trigger : UInt16) (ref : InlineRef) : Prop where
  trigger : isTrigger trigger = true
  label : ∀ c ∈ ref.label, inLabel c = true
  fits : fits ref.label = true
  id : isUuid ref.id = true

theorem tokenRe_iff {fits : JsString → Bool} {text : JsString} {ref : InlineRef} {n : Nat} :
    tokenRe fits text = some (ref, n) ↔
      ∃ trigger rest, Proper fits trigger ref ∧ text = spell trigger ref ++ rest ∧ n = (spell trigger ref).length := by
  constructor
  · intro h
    match text with
    | [] => cases h
    | [_] => cases h
    | trigger :: bracket :: rest =>
      obtain ⟨hcond, hread⟩ := Option.ite_none_right_eq_some.1 h
      obtain ⟨⟨kind, id⟩, htarget, heq⟩ := Option.map_eq_some_iff.1 hread
      obtain ⟨⟩ := heq
      rw [Bool.and_eq_true, Bool.and_eq_true, decide_eq_true_eq] at hcond
      obtain ⟨⟨htrigger, rfl⟩, hfits⟩ := hcond
      obtain ⟨hid, behind, hbehind⟩ := readTarget_iff.1 htarget
      refine ⟨trigger, behind, ⟨htrigger, fun c hc => List.mem_takeWhile_imp hc, hfits, hid⟩, ?_, ?_⟩
      · show trigger :: leftBracket :: rest = trigger :: leftBracket :: (_ ++ _ ++ behind)
        rw [List.append_assoc, hbehind, List.takeWhile_append_dropWhile]
      · simp only [spell, List.length_cons, List.length_append]
        omega
  · rintro ⟨trigger, rest, h, rfl, rfl⟩
    have hstop : ¬ inLabel rightBracket = true := by decide
    have hlabel : (ref.label ++ (targetText ref.kind ref.id ++ rest)).takeWhile inLabel = ref.label := by
      rw [List.takeWhile_append_of_pos h.label]
      show ref.label ++ (rightBracket :: _).takeWhile inLabel = _
      rw [List.takeWhile_cons_of_neg hstop, List.append_nil]
    have htarget : (ref.label ++ (targetText ref.kind ref.id ++ rest)).dropWhile inLabel =
        targetText ref.kind ref.id ++ rest := by
      rw [List.dropWhile_append_of_pos h.label]
      show (rightBracket :: _).dropWhile inLabel = _
      rw [List.dropWhile_cons_of_neg hstop]
      rfl
    have hread : readTarget (targetText ref.kind ref.id ++ rest) = some (ref.kind, ref.id) :=
      readTarget_iff.2 ⟨h.id, List.prefix_append _ rest⟩
    show tokenRe fits (trigger :: leftBracket :: (ref.label ++ targetText ref.kind ref.id ++ rest)) = _
    rw [List.append_assoc, tokenRe]
    simp only [hlabel, htarget, hread, h.trigger, h.fits, decide_true, Bool.and_self, if_true, Option.map_some, spell,
      List.length_cons, List.length_append, Option.some.injEq, Prod.mk.injEq, true_and]
    omega

/-! ### tokens are marks -/

theorem leftBracket_not_mem_target {kind : InlineRefKind} {id : JsString} (hid : isUuid id = true) :
    leftBracket ∉ targetText kind id := by
  intro hmem
  rw [targetText, List.mem_append, List.mem_append] at hmem
  rcases hmem with (hmem | hmem) | hmem
  · revert hmem
    cases kind <;> decide
  · rcases isHexDigit_or_hyphen hid _ hmem with h | h <;> exact absurd h (by decide)
  · exact absurd hmem (by decide)

theorem leftBracket_not_mem {fits : JsString → Bool} {trigger : UInt16} {ref : InlineRef} (h : Proper fits trigger ref) :
    leftBracket ∉ ref.label ++ targetText ref.kind ref.id := by
  intro hmem
  rcases List.mem_append.1 hmem with hmem | hmem
  · exact absurd (h.label _ hmem) (by decide)
  · exact leftBracket_not_mem_target h.id hmem

theorem tokenRe_inside {fits : JsString → Bool} {trigger : UInt16} {ref : InlineRef} (h : Proper fits trigger ref)
    (rest : JsString) {j : Nat} (hpos : 0 < j) (hlt : j < (spell trigger ref).length) :
    tokenRe fits ((spell trigger ref ++ rest).drop j) = none := by
  cases hread : tokenRe fits ((spell trigger ref ++ rest).drop j) with
  | none => rfl
  | some found =>
    obtain ⟨trigger', rest', h', htext, -⟩ := tokenRe_iff.1 (show _ = some (found.1, found.2) from hread)
    obtain ⟨j, rfl⟩ := Nat.exists_eq_succ_of_ne_zero (Nat.ne_of_gt hpos)
    cases j with
    | zero =>
      -- a bracket is no trigger
      obtain ⟨rfl, -⟩ := List.cons.inj htext
      exact absurd h'.trigger (by decide)
    | succ j =>
      have hj : j < (ref.label ++ targetText ref.kind ref.id).length := by
        have hlength : (spell trigger ref).length = (ref.label ++ targetText ref.kind ref.id).length + 2 := rfl
        omega
      have hdrop : ((ref.label ++ targetText ref.kind ref.id).drop j ++ rest) = spell trigger' found.1 ++ rest' := by
        rw [← htext, spell, List.cons_append, List.cons_append, List.drop_succ_cons, List.drop_succ_cons,
          List.drop_append_of_le_length (Nat.le_of_lt hj)]
      have hmem := leftBracket_not_mem h
      have hlast : ∃ front, ref.label ++ targetText ref.kind ref.id = front ++ [rightParen] :=
        ⟨ref.label ++ (targetStart ref.kind ++ ref.id), (List.append_assoc _ _ _).symm⟩
      obtain ⟨front, hfront⟩ := hlast
      have hle : j ≤ front.length := by
        rw [hfront, List.length_append, List.length_singleton] at hj
        exact Nat.le_of_lt_succ hj
      rw [hfront, List.drop_append_of_le_length hle] at hdrop
      rw [hfront] at hmem
      cases hfirst : front.drop j with
      | nil =>
        -- nor is the parenthesis at the end
        rw [hfirst] at hdrop
        obtain ⟨rfl, -⟩ := List.cons.inj hdrop
        exact absurd h'.trigger (by decide)
      | cons c more =>
        rw [hfirst] at hdrop
        obtain ⟨-, hnext⟩ := List.cons.inj hdrop
        cases more with
        | nil =>
          obtain ⟨hparen, -⟩ := List.cons.inj hnext
          exact absurd hparen (by decide)
        | cons d more =>
          obtain ⟨rfl, -⟩ := List.cons.inj hnext
          refine absurd (List.mem_append_left _ (List.mem_of_mem_drop (i := j) ?_)) hmem
          rw [hfirst]
          exact List.mem_cons_of_mem _ List.mem_cons_self

/-- **The tokens of a text never overlap.** -/
def tokenReader (fits : JsString → Bool) : Marks.Reader UInt16 InlineRef where
  read := tokenRe fits
  length_pos h := by
    obtain ⟨trigger, rest, -, rfl, rfl⟩ := tokenRe_iff.1 h
    rw [List.length_append]
    exact ⟨Nat.succ_pos _, Nat.le_add_right _ _⟩
  extend more h := by
    obtain ⟨trigger, rest, hproper, rfl, rfl⟩ := tokenRe_iff.1 h
    exact tokenRe_iff.2 ⟨trigger, rest ++ more, hproper, List.append_assoc _ _ _, rfl⟩
  restrict h := by
    obtain ⟨trigger, rest, hproper, rfl, rfl⟩ := tokenRe_iff.1 h
    rw [List.take_left]
    exact tokenRe_iff.2 ⟨trigger, [], hproper, (List.append_nil _).symm, rfl⟩
  apart h hpos hlt := by
    obtain ⟨trigger, rest, hproper, rfl, rfl⟩ := tokenRe_iff.1 h
    exact tokenRe_inside hproper rest hpos hlt

/-! ## references -/

/-- A reference and where its token stands. -/
abbrev RefRange : Type := Marks.Found InlineRef

def refKey (ref : InlineRef) : JsString := ref.kind.name ++ [colon] ++ ref.id

def refDisplayName (ref : InlineRef) : JsString := ref.kind.label ++ literal "：" ++ ref.label

/-- `replace(/\s+/g, " ")` -/
def singleBlanks (inRun : Bool) : JsString → JsString
  | [] => []
  | c :: rest =>
    if isBlank c then (if inRun then singleBlanks true rest else blank :: singleBlanks true rest)
    else c :: singleBlanks false rest

def sanitizeLabel (label : JsString) : JsString :=
  let plain := label.map (fun c => if [leftBracket, rightBracket, lf, cr].contains c then blank else c)
  let cleaned := trim ((trim (singleBlanks false plain)).take maxRefLabel)
  if cleaned = [] then literal "未命名" else cleaned

def encodeRef (ref : InlineRef) : JsString := spell atSign { ref with label := sanitizeLabel ref.label }

def decodeToken (token : JsString) : Option InlineRef :=
  (tokenRe labelFits token).bind (fun (ref, n) => if n = token.length then some ref else none)

/-- What is found is a whole token, and `decodeToken` makes the same of it (`decodeToken_found`). -/
def findRefs (text : JsString) : List RefRange := Marks.scan (tokenReader labelFits) 0 0 text

def parseRefs (text : JsString) : List InlineRef := Keyed.collect refKey ((findRefs text).map (·.mark))

def hasRef (text : JsString) (ref : InlineRef) : Bool := (parseRefs text).any (fun r => refKey r = refKey ref)

def slices (text : JsString) : Nat → List RefRange → List JsString
  | cursor, [] => [text.drop cursor]
  | cursor, range :: ranges =>
    (text.drop cursor).take (range.start - cursor) ::
      slices text (if text[range.stop]? = some blank then range.stop + 1 else range.stop) ranges

/-- `replace(/ {2,}/g, " ")` -/
def collapseBlanks : JsString → JsString
  | [] => []
  | c :: rest => if c = blank ∧ rest.head? = some blank then collapseBlanks rest else c :: collapseBlanks rest

def rangesOf (text : JsString) (ref : InlineRef) : List RefRange :=
  (findRefs text).filter (fun range => refKey range.mark = refKey ref)

def removeRef (text : JsString) (ref : InlineRef) : JsString :=
  let ranges := rangesOf text ref
  if ranges = [] then text else collapseBlanks (slices text 0 ranges).flatten

/-! ## the reference that is being typed -/

structure MentionQuery where
  query : JsString
  start : Nat
  stop : Nat
  deriving DecidableEq

def isQueryChar (c : UInt16) : Bool :=
  !isBlank c && !([leftBracket, rightBracket, leftParen, rightParen, colon].contains c)

/-- `[A-Za-z0-9_@＠]` -/
def isWordChar (c : UInt16) : Bool :=
  (0x41 ≤ c && c ≤ 0x5a) || (0x61 ≤ c && c ≤ 0x7a) || (0x30 ≤ c && c ≤ 0x39) || c = underscore || isTrigger c

def mentionBack (text : JsString) (stop : Nat) : Nat → Option MentionQuery
  | 0 => none
  | i + 1 =>
    if i < stop - maxMentionQuery then none
    else
      text[i]?.bind (fun c =>
        if !isQueryChar c then none
        else if isTrigger c then
          if 0 < i ∧ (text[i - 1]?).any isWordChar then none
          else some { query := (text.take stop).drop (i + 1), start := i, stop := stop }
        else mentionBack text stop i)

def clampCaret (text : JsString) (caret : Int) : Nat := (max 0 (min caret text.length)).toNat

def findMentionAt (text : JsString) (caret : Int) : Option MentionQuery :=
  mentionBack text (clampCaret text caret) (clampCaret text caret)

/-! ## putting one in -/

structure MentionTarget where
  /-- None for a kind that is none of `KINDS`. -/
  kind : Option InlineRefKind
  id : JsString
  label : JsString
  selectable : Bool := true

structure MentionLimits where
  maxMentions : Nat
  maxKnowledgeBases : Nat
  maxChars : Nat

def fallbackLimits : MentionLimits := { maxMentions := 8, maxKnowledgeBases := 5, maxChars := 8000 }

structure InsertMentionResult where
  text : JsString
  caret : Nat
  ok : Bool
  reason : Option JsString
  deriving DecidableEq

def targetToRef (target : MentionTarget) : Option InlineRef :=
  if target.id = [] then none else target.kind.map (fun kind => { kind, id := target.id, label := target.label })

def rejected (text : JsString) (caret : Nat) (reason : JsString) : InsertMentionResult :=
  { text, caret, ok := false, reason := some reason }

def replaced (text : JsString) (place : Nat) (active : Option MentionQuery) : Nat × Nat :=
  match active with
  | some query => (query.start, max query.start (min query.stop text.length))
  | none => (place, place)

def withBlank (token tail : JsString) : JsString := if tail.head?.any isBlank then token else token ++ [blank]

def splice (text : JsString) (range : Nat × Nat) (token : JsString) : JsString :=
  text.take range.1 ++ withBlank token (text.drop range.2) ++ text.drop range.2

def refusal (text : JsString) (target : MentionTarget) (ref : InlineRef) (limits : MentionLimits) : Option JsString :=
  let existing := parseRefs text
  if decodeToken (encodeRef ref) = none then some (literal "这个目标无法引用")
  else if target.selectable = false then some (refDisplayName ref ++ literal " 还不可检索，请稍后再试")
  else if hasRef text ref then some (literal "已引用" ++ refDisplayName ref)
  else if limits.maxMentions ≤ existing.length then
    some (literal s!"一条消息最多引用 {limits.maxMentions} 个目标，请先删掉不需要的引用")
  else if ref.kind = .kb ∧ limits.maxKnowledgeBases ≤ (existing.filter (fun r => r.kind = .kb)).length then
    some (literal s!"一条消息最多引用 {limits.maxKnowledgeBases} 个知识库")
  else none

/-- The anchor is what the popover found; with none at all, `findMentionAt` looks at the caret. -/
def insertMention (text : JsString) (caret : Int) (target : MentionTarget) (limits : MentionLimits)
    (anchor : Option (Option MentionQuery)) : InsertMentionResult :=
  let place := clampCaret text caret
  match targetToRef target with
  | none => rejected text place (literal "这个目标无法引用")
  | some ref =>
    match refusal text target ref limits with
    | some reason => rejected text place reason
    | none =>
      let range := replaced text place (anchor.getD (findMentionAt text place))
      let next := splice text range (encodeRef ref)
      if limits.maxChars < next.length then
        rejected text place
          (literal s!"正文与引用合计上限 {limits.maxChars} 字，本次需要 {next.length} 字，请先精简")
      else
        { text := next
          caret := range.1 + (withBlank (encodeRef ref) (text.drop range.2)).length
          ok := true
          reason := none }

end Mentions
end MyGpt
