import MyGpt.AnswerClaims
/-!
# AnswerGate — what the gate hands to delivery

`gate_answer` runs its checks over the claims of an answer, cuts the claims that fail one and strips the markers that
name no evidence.  What it hands out is sound for every answer that passes the schema check and that cutting does not
itself put together into something unsound; an answer that fails the schema check is handed out as it came
(`gate_sound_iff`).
-/
namespace MyGpt
namespace Rag

open Chat (Text isSpace strip stripMarkers sanitizeMarkers AnswerStatus finalize)

/-! ## personal data -/

inductive Pii
  | cnIdCard | bankCard | cnMobile | email
  deriving DecidableEq

def inRange (lo hi c : Char) : Bool := decide (lo ≤ c ∧ c ≤ hi)

def idCardAt : Text → Bool
  | a₁ :: a₂ :: a₃ :: a₄ :: a₅ :: a₆ :: c₁ :: c₂ :: y₁ :: y₂ :: m₁ :: m₂ :: d₁ :: d₂ :: s₁ :: s₂ :: s₃ :: x :: rest =>
    inRange '1' '9' a₁ && [a₂, a₃, a₄, a₅, a₆].all isDecimal &&
      ([c₁, c₂] == ['1', '9'] || [c₁, c₂] == ['2', '0']) && [y₁, y₂].all isDecimal &&
      ((m₁ == '0' && inRange '1' '9' m₂) || (m₁ == '1' && inRange '0' '2' m₂)) &&
      ((d₁ == '0' && inRange '1' '9' d₂) || (inRange '1' '2' d₁ && isDecimal d₂) || (d₁ == '3' && inRange '0' '1' d₂)) &&
      [s₁, s₂, s₃].all isDecimal && (isDecimal x || x == 'X' || x == 'x') && !rest.head?.any isDecimal
  | _ => false

def bankCardAt (text : Text) : Option Nat :=
  let run := (text.takeWhile isDecimal).length
  if 16 ≤ run ∧ run ≤ 19 then some run else none

def mobileAt : Text → Bool
  | a :: b :: rest =>
    a == '1' && inRange '3' '9' b && decide ((rest.takeWhile isDecimal).length = 9)
  | _ => false

def emailLocal (c : Char) : Bool :=
  inRange 'A' 'Z' c || inRange 'a' 'z' c || inRange '0' '9' c || ['.', '_', '%', '+', '-'].contains c

def emailDomain (c : Char) : Bool :=
  inRange 'A' 'Z' c || inRange 'a' 'z' c || inRange '0' '9' c || c == '.' || c == '-'

def asciiLetter (c : Char) : Bool := inRange 'A' 'Z' c || inRange 'a' 'z' c

/-- A domain with a dot and two letters after it; `seen`: some of the domain is read already. -/
def domainAt (seen : Bool) : Text → Bool
  | [] => false
  | c :: rest =>
    (seen && c == '.' && decide (2 ≤ (rest.takeWhile asciiLetter).length)) || (emailDomain c && domainAt true rest)

def hasEmail (prev : Option Char) : Text → Bool
  | [] => false
  | c :: rest => (c == '@' && prev.any emailLocal && domainAt false rest) || hasEmail (some c) rest

/-- `pattern.sub` with blanks for a pattern that starts behind no digit: the masked text, and whether anything matched.
`left` characters of the match being masked are still to come. -/
def maskPattern (at? : Text → Option Nat) (prev : Option Char) (left : Nat) : Text → Text × Bool
  | [] => ([], false)
  | c :: rest =>
    match left with
    | left + 1 => (' ' :: (maskPattern at? (some c) left rest).1, true)
    | 0 =>
      match if prev.any isDecimal then none else at? (c :: rest) with
      | some n => (' ' :: (maskPattern at? (some c) (n - 1) rest).1, true)
      | none =>
        let (masked, found) := maskPattern at? (some c) 0 rest
        (c :: masked, found)

def maskingPatterns : List (Pii × (Text → Option Nat)) :=
  [(.cnIdCard, fun text => if idCardAt text then some 18 else none), (.bankCard, bankCardAt),
    (.cnMobile, fun text => if mobileAt text then some 11 else none)]

def scanMasking : List (Pii × (Text → Option Nat)) → Text → List Pii
  | [], masked => if hasEmail none masked then [.email] else []
  | (kind, at?) :: patterns, masked =>
    match maskPattern at? none 0 masked with
    | (masked', true) => kind :: scanMasking patterns masked'
    | (_, false) => scanMasking patterns masked

def scanPii (text : Text) : List Pii := scanMasking maskingPatterns text

/-! ## the recheck of the evidence -/

structure EvidenceRow where
  contentSha256 : Option String
  documentStatus : String
  owner : Option Nat
  deriving DecidableEq

/-- The tables the recheck reads, by chunk id. -/
abbrev EvidenceDb := String → Option EvidenceRow

def recheckItem (db : EvidenceDb) (user : Option Nat) (item : ContextItem) : Option String :=
  match db item.chunkId with
  | none => some "evidence_missing"
  | some row =>
    if item.contentSha256.any (· ≠ "") ∧ row.contentSha256.any (· ≠ "") ∧ row.contentSha256 ≠ item.contentSha256 then
      some "revision_changed"
    else if row.documentStatus ≠ "indexed" then some ("document_" ++ row.documentStatus)
    else if user ≠ none ∧ (row.owner = none ∨ row.owner ≠ user) then some "unauthorized"
    else none

/-- `bad_by_ctx`: the evidence ids that failed, with the reason given last. -/
def badEvidence (db : EvidenceDb) (user : Option Nat) (items : List ContextItem) (wanted : List String) :
    List (String × String) :=
  (items.filter (fun item => wanted.contains item.contextId)).filterMap (fun item =>
    (recheckItem db user item).map (fun reason => (item.contextId, reason)))

def badReason (bad : List (String × String)) (contextId : String) : Option String :=
  (bad.reverse.find? (·.1 == contextId)).map (·.2)

/-! ## the gate -/

inductive CheckName
  | schema | citationIdsExist | authorizationRecheck | piiPolicy | length | highRiskGrounding
  deriving DecidableEq

inductive CheckStatus
  | pass | fail | skip
  deriving DecidableEq

structure Check where
  name : CheckName
  status : CheckStatus
  deriving DecidableEq

inductive Action
  | returnAnswer | dropClaims | refuse | retryFormatOnce
  deriving DecidableEq

inductive RefusalReason
  | schemaInvalid | insufficientEvidence | allClaimsDropped
  | check (name : CheckName)
  deriving DecidableEq

structure Input where
  answer : Text
  items : List ContextItem
  /-- `None` when the request has no rows to recheck. -/
  db : Option EvidenceDb := none
  user : Option Nat := none
  isHighRisk : Bool := false
  kbExplicit : Bool := false
  retrievalInsufficient : Bool := false
  maxAnswerChars : Nat := 0

structure Outcome where
  answer : Text
  status : AnswerStatus
  action : Action
  claims : List Claim
  checks : List Check
  refusalReason : Option RefusalReason

/-- What `TurnGate.finalize` reads of an outcome. -/
def Outcome.brief (o : Outcome) : Chat.PostprocessOutcome where
  answer := o.answer
  status := o.status
  droppedClaims := (o.claims.filter (·.dropped)).length

/-- `_ALLOWED_CONTROL` aside, a control character. -/
def badControl (c : Char) : Bool := decide (c.toNat < 32) && !(c == '\n' || c == '\r' || c == '\t')

def Claim.fabricated (n : Nat) (c : Claim) : Bool := (claimSourceIndexes c.text).any (fun m => m = 0 || n < m)

def Claim.drop (c : Claim) (reason : String) : Claim := { c with dropped := true, dropReason := some reason }

def Claim.cited (n : Nat) (c : Claim) : Claim := if c.fabricated n then c.drop "citation_not_in_request" else c

def Claim.authorized (bad : List (String × String)) (c : Claim) : Claim :=
  if c.dropped then c
  else
    match c.evidence.findSome? (badReason bad) with
    | some reason => c.drop reason
    | none => { c with evidence := c.evidence.filter (fun cid => (badReason bad cid).isNone) }

def Claim.screened (c : Claim) : Claim := if c.dropped = false ∧ scanPii c.text ≠ [] then c.drop "pii" else c

def schemaFails (answer : Text) (claims : List Claim) : Bool :=
  blankText answer || answer.any badControl || (!blankText answer && claims.isEmpty)

def checkOf (name : CheckName) (failed : Bool) : Check := ⟨name, if failed then .fail else .pass⟩

def failedNames (checks : List Check) : List CheckName := (checks.filter (·.status = .fail)).map (·.name)

def recheckClaims (i : Input) (claims : List Claim) : List Claim × Check :=
  let live := claims.filter (fun c => !c.dropped && !c.evidence.isEmpty)
  match i.db with
  | none => (claims, ⟨.authorizationRecheck, .skip⟩)
  | some db =>
    if live.isEmpty then (claims, ⟨.authorizationRecheck, .skip⟩)
    else
      let bad := badEvidence db i.user i.items (live.flatMap (·.evidence))
      (claims.map (Claim.authorized bad), checkOf .authorizationRecheck (!bad.isEmpty))

def Input.early (i : Input) : Bool :=
  i.retrievalInsufficient && (i.kbExplicit || i.isHighRisk) && blankText i.answer

def settleClaims (i : Input) : List Claim × Check :=
  let (claims, authz) := recheckClaims i ((buildClaims i.answer i.items).map (Claim.cited i.items.length))
  (if scanPii i.answer = [] then claims else claims.map Claim.screened, authz)

def Input.overlong (i : Input) : Bool := decide (0 < i.maxAnswerChars ∧ i.maxAnswerChars < i.answer.length)

def backedClaim (c : Claim) : Bool := !c.dropped && !c.evidence.isEmpty

def cutDropped (answer : Text) (claims : List Claim) : Text :=
  if claims.any (·.dropped) then removeClaimSpans answer claims else answer

def gateChecks (i : Input) (claims : List Claim) (authz : Check) : List Check :=
  [⟨.schema, .pass⟩, checkOf .citationIdsExist ((buildClaims i.answer i.items).any (·.fabricated i.items.length)), authz,
    checkOf .piiPolicy (scanPii i.answer ≠ []),
    ⟨.length, if i.overlong then .fail else if 0 < i.maxAnswerChars then .pass else .skip⟩,
    ⟨.highRiskGrounding, if i.isHighRisk then (if claims.any backedClaim then .pass else .fail) else .skip⟩] ++
  let cut := cutDropped i.answer claims
  if (stripMarkers i.items.length cut.length cut).2 then [⟨.citationIdsExist, .fail⟩] else []

def hardFailures (i : Input) (rewritten : Text) : List CheckName :=
  [CheckName.highRiskGrounding] ++ (if i.overlong then [.length] else []) ++
    (if scanPii i.answer ≠ [] ∧ scanPii rewritten ≠ [] then [.piiPolicy] else [])

def gateAnswer (i : Input) : Outcome :=
  if i.early then
    { answer := [], status := .insufficientEvidence, action := .refuse, claims := []
      checks := [⟨.schema, .pass⟩, ⟨.citationIdsExist, .skip⟩, ⟨.authorizationRecheck, .skip⟩, ⟨.piiPolicy, .pass⟩,
        ⟨.length, .pass⟩]
      refusalReason := some .insufficientEvidence }
  else if schemaFails i.answer (buildClaims i.answer i.items) then
    { answer := i.answer, status := .answered, action := .retryFormatOnce, claims := buildClaims i.answer i.items
      checks := [⟨.schema, .fail⟩], refusalReason := some .schemaInvalid }
  else
    let (claims, authz) := settleClaims i
    let rewritten := sanitizeMarkers (cutDropped i.answer claims) i.items.length
    let checks := gateChecks i claims authz
    if (hardFailures i rewritten).any (failedNames checks).contains then
      { answer := [], status := .refused, action := .refuse, claims := claims, checks := checks
        refusalReason := (hardFailures i rewritten).head?.map .check }
    else if (scanPii i.answer ≠ [] ∨ claims.any (·.dropped)) ∧ claims.all (·.dropped) then
      { answer := [], status := .insufficientEvidence, action := .refuse, claims := claims, checks := checks
        refusalReason := some .allClaimsDropped }
    else
      { answer := rewritten, status := .answered
        action := if scanPii i.answer ≠ [] ∨ claims.any (·.dropped) then .dropClaims else .returnAnswer
        claims := claims, checks := checks, refusalReason := none }

/-! ## what the gate is for -/

def MarkersBacked (i : Input) (text : Text) : Prop := ∀ n ∈ claimSourceIndexes text, 1 ≤ n ∧ n ≤ i.items.length

def Outcome.reasonFailed (i : Input) (o : Outcome) : Prop :=
  match o.refusalReason with
  | some (.check name) => name ∈ failedNames o.checks
  | some .allClaimsDropped => (∀ c ∈ o.claims, c.dropped = true) ∧ failedNames o.checks ≠ []
  | some .insufficientEvidence => i.retrievalInsufficient = true ∧ blankText i.answer = true
  | _ => False

/-- **The purpose of the gate**, of the result `TurnGate.finalize` hands to delivery. -/
def GateSound (i : Input) : Prop :=
  let o := gateAnswer i
  let result := finalize o.brief
  (result.refused = false →
    scanPii result.answer = [] ∧ MarkersBacked i result.answer ∧
      (∀ c ∈ o.claims, c.dropped = true → ¬ c.text <:+: result.answer) ∧
      (i.isHighRisk = true → ∃ c ∈ o.claims, c.dropped = false ∧ c.evidence ≠ [])) ∧
  (result.refused = true → o.reasonFailed i)

/-! ## which claims are cut -/

def Input.stale (i : Input) (contextId : String) : Bool :=
  match i.db with
  | none => false
  | some db => i.items.any (fun item => item.contextId == contextId && (recheckItem db i.user item).isSome)

def Input.flagged (i : Input) (c : Claim) : Bool :=
  c.fabricated i.items.length || c.evidence.any i.stale || (decide (scanPii i.answer ≠ []) && decide (scanPii c.text ≠ []))

def Input.claims (i : Input) : List Claim := buildClaims i.answer i.items

def Input.kept (i : Input) : Text :=
  sanitizeMarkers (cutDropped i.answer (i.claims.map (fun c => { c with dropped := i.flagged c }))) i.items.length

structure Settles (i : Input) (c c' : Claim) : Prop where
  text : c'.text = c.text
  span : c'.span = c.span
  dropped : c'.dropped = i.flagged c
  evidence : i.flagged c = false → c'.evidence = c.evidence

theorem buildClaims_fresh {answer : Text} {items : List ContextItem} {c : Claim} (h : c ∈ buildClaims answer items) :
    c.dropped = false := by
  obtain ⟨⟨span, n⟩, -, rfl⟩ := List.mem_map.1 h
  rfl

theorem badReason_isSome {bad : List (String × String)} {cid : String} :
    (badReason bad cid).isSome = true ↔ ∃ entry ∈ bad, entry.1 = cid := by
  simp [badReason, List.find?_isSome]

theorem badEvidence_isSome {i : Input} {db : EvidenceDb} (hdb : i.db = some db) {wanted : List String} {cid : String}
    (hw : cid ∈ wanted) : (badReason (badEvidence db i.user i.items wanted) cid).isSome = i.stale cid := by
  rw [Bool.eq_iff_iff, badReason_isSome]
  simp only [Input.stale, hdb, badEvidence, List.any_eq_true, Bool.and_eq_true, beq_iff_eq, List.mem_filterMap,
    List.mem_filter, List.contains_iff_mem, Option.map_eq_some_iff]
  constructor
  · rintro ⟨entry, ⟨item, ⟨hitem, -⟩, reason, hreason, rfl⟩, hid⟩
    exact ⟨item, hitem, hid, Option.isSome_iff_exists.2 ⟨reason, hreason⟩⟩
  · rintro ⟨item, hitem, rfl, hbad⟩
    obtain ⟨reason, hreason⟩ := Option.isSome_iff_exists.1 hbad
    exact ⟨(item.contextId, reason), ⟨item, ⟨hitem, hw⟩, reason, hreason, rfl⟩, rfl⟩

structure Rechecks (i : Input) (c c' : Claim) : Prop where
  text : c'.text = c.text
  span : c'.span = c.span
  dropped : c'.dropped = (c.fabricated i.items.length || c.evidence.any i.stale)
  evidence : c'.dropped = false → c'.evidence = c.evidence

theorem rechecks_cited {i : Input} {c : Claim} (hfresh : c.dropped = false)
    (hgood : c.fabricated i.items.length = false → c.evidence.any i.stale = false) :
    Rechecks i c (c.cited i.items.length) := by
  unfold Claim.cited
  cases hf : c.fabricated i.items.length with
  | true =>
    rw [if_pos rfl]
    exact ⟨rfl, rfl, by rw [hf]; rfl, nofun⟩
  | false =>
    rw [if_neg Bool.false_ne_true]
    refine ⟨rfl, rfl, ?_, fun _ => rfl⟩
    rw [hf, hgood hf]
    exact hfresh

theorem rechecks_authorized {i : Input} {bad : List (String × String)} {c : Claim} (hfresh : c.dropped = false)
    (hbad : c.fabricated i.items.length = false → ∀ cid ∈ c.evidence, (badReason bad cid).isSome = i.stale cid) :
    Rechecks i c ((c.cited i.items.length).authorized bad) := by
  unfold Claim.cited
  cases hf : c.fabricated i.items.length with
  | true =>
    have hsame : (c.drop "citation_not_in_request").authorized bad = c.drop "citation_not_in_request" := if_pos rfl
    rw [if_pos rfl, hsame]
    exact ⟨rfl, rfl, by rw [hf]; rfl, nofun⟩
  | false =>
    rw [if_neg Bool.false_ne_true]
    unfold Claim.authorized
    rw [if_neg (by rw [hfresh]; exact Bool.false_ne_true)]
    cases hfind : c.evidence.findSome? (badReason bad) with
    | some reason =>
      obtain ⟨cid, hcid, hreason⟩ := List.exists_of_findSome?_eq_some hfind
      have hstale : i.stale cid = true := by
        rw [← hbad hf cid hcid, hreason]
        rfl
      refine ⟨rfl, rfl, ?_, nofun⟩
      rw [hf, Bool.false_or]
      exact (List.any_eq_true.2 ⟨cid, hcid, hstale⟩).symm
    | none =>
      rw [List.findSome?_eq_none_iff] at hfind
      have hgood : c.evidence.any i.stale = false := by
        rw [List.any_eq_false]
        intro cid hcid
        rw [← hbad hf cid hcid, hfind cid hcid]
        exact Bool.false_ne_true
      refine ⟨rfl, rfl, ?_, fun _ => ?_⟩
      · rw [hf, hgood]
        exact hfresh
      · refine List.filter_eq_self.2 (fun cid hcid => ?_)
        rw [hfind cid hcid]
        rfl

theorem cited_of_not_fabricated {n : Nat} {c : Claim} (hf : c.fabricated n = false) : c.cited n = c :=
  if_neg (by rw [hf]; exact Bool.false_ne_true)

theorem recheckClaims_map (i : Input) : ∃ f : Claim → Claim,
    (recheckClaims i (i.claims.map (Claim.cited i.items.length))).1 = i.claims.map f ∧
      ∀ c ∈ i.claims, Rechecks i c (f c) := by
  unfold recheckClaims
  cases hdb : i.db with
  | none =>
    refine ⟨Claim.cited i.items.length, rfl, fun c hc => rechecks_cited (buildClaims_fresh hc) (fun _ => ?_)⟩
    rw [List.any_eq_false]
    intro cid _
    simp [Input.stale, hdb]
  | some db =>
    dsimp only
    split
    · rename_i hlive
      refine ⟨Claim.cited i.items.length, rfl, fun c hc => rechecks_cited (buildClaims_fresh hc) (fun hf => ?_)⟩
      -- without a live claim no claim has evidence
      have hmem : c ∈ i.claims.map (Claim.cited i.items.length) :=
        List.mem_map.2 ⟨c, hc, cited_of_not_fabricated hf⟩
      have hnone : c.evidence = [] := by
        rw [List.isEmpty_iff, List.filter_eq_nil_iff] at hlive
        have hnot := hlive c hmem
        simpa [buildClaims_fresh hc] using hnot
      rw [hnone]
      rfl
    · refine ⟨_, List.map_map, fun c hc => rechecks_authorized (buildClaims_fresh hc) (fun hf cid hcid => ?_)⟩
      have hmem : c ∈ i.claims.map (Claim.cited i.items.length) :=
        List.mem_map.2 ⟨c, hc, cited_of_not_fabricated hf⟩
      refine badEvidence_isSome hdb (List.mem_flatMap.2 ⟨c, List.mem_filter.2 ⟨hmem, ?_⟩, hcid⟩)
      have hne : c.evidence ≠ [] := List.ne_nil_of_mem hcid
      simp [buildClaims_fresh hc, hne]

/-- **The steps mark exactly the flagged claims**, and leave text, place and evidence of the others. -/
theorem settleClaims_map (i : Input) : ∃ f : Claim → Claim, (settleClaims i).1 = i.claims.map f ∧
    ∀ c ∈ i.claims, Settles i c (f c) := by
  obtain ⟨f, hf, hrechecks⟩ := recheckClaims_map i
  unfold settleClaims
  dsimp only
  rw [show buildClaims i.answer i.items = i.claims from rfl, hf]
  by_cases hpii : scanPii i.answer = []
  · rw [if_pos hpii]
    refine ⟨f, rfl, fun c hc => ?_⟩
    have hr := hrechecks c hc
    have hflag : i.flagged c = (f c).dropped := by
      rw [hr.dropped]
      simp [Input.flagged, hpii]
    exact ⟨hr.text, hr.span, hflag.symm, fun h => hr.evidence (hflag ▸ h)⟩
  · rw [if_neg hpii]
    refine ⟨_, List.map_map, fun c hc => ?_⟩
    have hr := hrechecks c hc
    have hflag : i.flagged c = ((f c).dropped || decide (scanPii c.text ≠ [])) := by
      rw [hr.dropped]
      simp [Input.flagged, hpii]
    show Settles i c (f c).screened
    unfold Claim.screened
    split
    · rename_i hdrop
      have hhit : scanPii c.text ≠ [] := hr.text ▸ hdrop.2
      have hflagged : i.flagged c = true := by simp [hflag, hhit]
      refine ⟨hr.text, hr.span, hflagged.symm, fun h => ?_⟩
      rw [hflagged] at h
      cases h
    · rename_i hdrop
      rw [hr.text, not_and, not_not] at hdrop
      have hsame : i.flagged c = (f c).dropped := by
        rw [hflag]
        cases hd : (f c).dropped with
        | true => rfl
        | false => simp [hdrop hd]
      exact ⟨hr.text, hr.span, hsame.symm, fun h => hr.evidence (hsame ▸ h)⟩

/-! ## the checks that fail -/

theorem mem_failedNames {checks : List Check} {name : CheckName} :
    name ∈ failedNames checks ↔ ⟨name, .fail⟩ ∈ checks := by
  simp only [failedNames, List.mem_map, List.mem_filter, decide_eq_true_eq]
  constructor
  · rintro ⟨⟨name', status⟩, ⟨hmem, rfl⟩, rfl⟩
    exact hmem
  · intro h
    exact ⟨_, ⟨h, rfl⟩, rfl⟩

theorem settleClaims_check (i : Input) : (settleClaims i).2.name = .authorizationRecheck := by
  show (recheckClaims i _).2.name = _
  unfold recheckClaims
  split
  · rfl
  · dsimp only
    split <;> rfl

theorem gateChecks_fail (i : Input) (claims : List Claim) {authz : Check} (hauthz : authz.name = .authorizationRecheck) :
    (.highRiskGrounding ∈ failedNames (gateChecks i claims authz) ↔
      i.isHighRisk = true ∧ claims.any backedClaim = false) ∧
    (.length ∈ failedNames (gateChecks i claims authz) ↔ i.overlong = true) ∧
    (.piiPolicy ∈ failedNames (gateChecks i claims authz) ↔ scanPii i.answer ≠ []) := by
  obtain ⟨name, status⟩ := authz
  obtain rfl : name = .authorizationRecheck := hauthz
  have hstripped : ∀ name : CheckName, name ≠ .citationIdsExist → (⟨name, .fail⟩ : Check) ∉
      (if (stripMarkers i.items.length (cutDropped i.answer claims).length (cutDropped i.answer claims)).2 then
        [⟨.citationIdsExist, .fail⟩] else [] : List Check) := by
    intro name hne
    split
    · simpa using hne
    · simp
  refine ⟨?_, ?_, ?_⟩
  · rw [mem_failedNames, gateChecks, List.mem_append, or_iff_left (hstripped .highRiskGrounding nofun)]
    cases i.isHighRisk <;> cases claims.any backedClaim <;> simp [checkOf]
  · rw [mem_failedNames, gateChecks, List.mem_append, or_iff_left (hstripped .length nofun)]
    cases i.overlong <;> by_cases hmax : 0 < i.maxAnswerChars <;> simp [checkOf, hmax]
  · rw [mem_failedNames, gateChecks, List.mem_append, or_iff_left (hstripped .piiPolicy nofun)]
    by_cases hpii : scanPii i.answer = [] <;> simp [checkOf, hpii]

theorem hardFailures_any (i : Input) (claims : List Claim) (rewritten : Text) {authz : Check}
    (hauthz : authz.name = .authorizationRecheck) :
    (hardFailures i rewritten).any (failedNames (gateChecks i claims authz)).contains = true ↔
      (i.isHighRisk = true ∧ claims.any backedClaim = false) ∨ i.overlong = true ∨
        (scanPii i.answer ≠ [] ∧ scanPii rewritten ≠ []) := by
  obtain ⟨hrisk, hlength, hpii⟩ := gateChecks_fail i claims hauthz
  rw [List.any_eq_true]
  simp only [List.contains_iff_mem, hardFailures, List.mem_append, List.mem_singleton]
  constructor
  · rintro ⟨name, (rfl | hname) | hname, hfailed⟩
    · exact .inl (hrisk.1 hfailed)
    · split at hname
      · rename_i hlong
        exact .inr (.inl hlong)
      · cases hname
    · split at hname
      · rename_i hresidue
        exact .inr (.inr hresidue)
      · cases hname
  · rintro (h | h | h)
    · exact ⟨.highRiskGrounding, .inl (.inl rfl), hrisk.2 h⟩
    · exact ⟨.length, .inl (.inr (by simp [h])), hlength.2 h⟩
    · exact ⟨.piiPolicy, .inr (by simp [h]), hpii.2 h.1⟩

theorem failed_of_flagged {i : Input} {c : Claim} (hc : c ∈ i.claims) (h : i.flagged c = true) :
    failedNames (gateChecks i (settleClaims i).1 (settleClaims i).2) ≠ [] := by
  have hmem : ∀ name, name ∈ failedNames (gateChecks i (settleClaims i).1 (settleClaims i).2) →
      failedNames (gateChecks i (settleClaims i).1 (settleClaims i).2) ≠ [] := fun name => List.ne_nil_of_mem
  cases hf : c.fabricated i.items.length with
  | true =>
    have hany : (buildClaims i.answer i.items).any (·.fabricated i.items.length) = true :=
      List.any_eq_true.2 ⟨c, hc, hf⟩
    refine hmem .citationIdsExist (mem_failedNames.2 ?_)
    simp [gateChecks, checkOf, hany]
  | false =>
    simp only [Input.flagged, hf, Bool.false_or, Bool.or_eq_true, Bool.and_eq_true, decide_eq_true_eq] at h
    rcases h with hstale | ⟨hpii, -⟩
    · obtain ⟨cid, hcid, hbad⟩ := List.any_eq_true.1 hstale
      cases hdb : i.db with
      | none => simp [Input.stale, hdb] at hbad
      | some db =>
        have hclaim : c ∈ i.claims.map (Claim.cited i.items.length) :=
          List.mem_map.2 ⟨c, hc, cited_of_not_fabricated hf⟩
        have hlive : c ∈ (i.claims.map (Claim.cited i.items.length)).filter
            (fun c => !c.dropped && !c.evidence.isEmpty) := by
          have hne : c.evidence ≠ [] := List.ne_nil_of_mem hcid
          refine List.mem_filter.2 ⟨hclaim, ?_⟩
          simp [buildClaims_fresh hc, hne]
        have hentry := badEvidence_isSome (i := i) hdb (List.mem_flatMap.2 ⟨c, hlive, hcid⟩)
        rw [hbad, badReason_isSome] at hentry
        obtain ⟨entry, hentry, -⟩ := hentry
        have hstatus : (settleClaims i).2 = ⟨.authorizationRecheck, .fail⟩ := by
          show (recheckClaims i (i.claims.map (Claim.cited i.items.length))).2 = _
          simp only [recheckClaims, hdb]
          rw [if_neg (by simpa using List.ne_nil_of_mem hlive)]
          have hbadNe : (badEvidence db i.user i.items
              (((i.claims.map (Claim.cited i.items.length)).filter
                (fun c => !c.dropped && !c.evidence.isEmpty)).flatMap (·.evidence))).isEmpty = false := by
            rw [List.isEmpty_eq_false_iff]
            exact List.ne_nil_of_mem hentry
          simp only [hbadNe]
          rfl
        refine hmem .authorizationRecheck (mem_failedNames.2 ?_)
        rw [hstatus]
        simp [gateChecks]
    · exact hmem .piiPolicy ((gateChecks_fail _ _ (settleClaims_check i)).2.2.2 hpii)

/-! ## when the gate is sound -/

def Input.backed (i : Input) : Bool := i.claims.any (fun c => !i.flagged c && !c.evidence.isEmpty)

/-- Cutting and stripping leave nothing they were to remove, and put nothing together: no PII, no marker without
evidence, no copy of a flagged claim. -/
def Input.keptSound (i : Input) : Prop :=
  scanPii i.kept = [] ∧ MarkersBacked i i.kept ∧ ∀ c ∈ i.claims, i.flagged c = true → ¬ c.text <:+: i.kept

/-- **When the gate is sound.** -/
def GateMeets (i : Input) : Prop :=
  if i.early then True
  else if schemaFails i.answer i.claims then
    -- nothing to remove from the answer that is handed out as it came
    scanPii i.answer = [] ∧ MarkersBacked i i.answer ∧ (i.isHighRisk = true → ∃ c ∈ i.claims, c.evidence ≠ [])
  else
    (i.isHighRisk = true ∧ i.backed = false) ∨
      (i.overlong = false ∧ (scanPii i.answer = [] ∨ scanPii i.kept = []) ∧
        ((∀ c ∈ i.claims, i.flagged c = true) ∨ i.keptSound))

theorem settled_kept (i : Input) : sanitizeMarkers (cutDropped i.answer (settleClaims i).1) i.items.length = i.kept := by
  obtain ⟨f, hf, hs⟩ := settleClaims_map i
  have hspans : ((i.claims.map f).filter (·.dropped)).map (·.span) =
      ((i.claims.map (fun c => { c with dropped := i.flagged c })).filter (·.dropped)).map (·.span) := by
    rw [List.filter_map, List.filter_map, List.map_map, List.map_map]
    have hfilter : i.claims.filter ((·.dropped) ∘ f) =
        i.claims.filter ((·.dropped) ∘ fun c => { c with dropped := i.flagged c }) :=
      List.filter_congr (fun c hc => (hs c hc).dropped)
    rw [hfilter]
    exact List.map_congr_left (fun c hc => (hs c (List.mem_filter.1 hc).1).span)
  have hany : (i.claims.map f).any (·.dropped) =
      (i.claims.map (fun c => { c with dropped := i.flagged c })).any (·.dropped) := by
    rw [List.any_map, List.any_map, Bool.eq_iff_iff, List.any_eq_true, List.any_eq_true]
    dsimp only [Function.comp]
    exact exists_congr (fun c => and_congr_right (fun hc => by rw [(hs c hc).dropped]))
  unfold Input.kept cutDropped
  rw [hf, hany]
  unfold removeClaimSpans
  rw [hspans]

theorem settled_backed (i : Input) : (settleClaims i).1.any backedClaim = i.backed := by
  obtain ⟨f, hf, hs⟩ := settleClaims_map i
  rw [hf, Input.backed, List.any_map, Bool.eq_iff_iff, List.any_eq_true, List.any_eq_true]
  refine exists_congr (fun c => and_congr_right (fun hc => ?_))
  dsimp only [Function.comp, backedClaim]
  rw [(hs c hc).dropped]
  cases hflag : i.flagged c with
  | true => simp
  | false => rw [(hs c hc).evidence hflag]

theorem settled_all (i : Input) :
    (∀ c ∈ (settleClaims i).1, c.dropped = true) ↔ ∀ c ∈ i.claims, i.flagged c = true := by
  obtain ⟨f, hf, hs⟩ := settleClaims_map i
  rw [hf]
  simp only [List.forall_mem_map]
  exact forall_congr' (fun c => forall_congr' (fun hc => by rw [(hs c hc).dropped]))

theorem settled_texts (i : Input) {P : Text → Prop} :
    (∀ c ∈ (settleClaims i).1, c.dropped = true → P c.text) ↔ ∀ c ∈ i.claims, i.flagged c = true → P c.text := by
  obtain ⟨f, hf, hs⟩ := settleClaims_map i
  rw [hf]
  simp only [List.forall_mem_map]
  exact forall_congr' (fun c => forall_congr' (fun hc => by rw [(hs c hc).dropped, (hs c hc).text]))

theorem settled_survivor {i : Input} (h : i.backed = true) :
    ∃ c ∈ (settleClaims i).1, c.dropped = false ∧ c.evidence ≠ [] := by
  rw [← settled_backed] at h
  obtain ⟨c, hc, hbacked⟩ := List.any_eq_true.1 h
  refine ⟨c, hc, ?_⟩
  simpa [backedClaim] using hbacked

theorem finalize_answered {o : Chat.PostprocessOutcome} (h : o.status = .answered) :
    (finalize o).refused = false ∧ (finalize o).answer = o.answer := by
  simp [finalize, h]

theorem finalize_refused {o : Chat.PostprocessOutcome} (h : o.status = .refused ∨ o.status = .insufficientEvidence) :
    (finalize o).refused = true := by
  simp [finalize, h]

theorem gateSound_refused {i : Input} {o : Outcome} (ho : gateAnswer i = o)
    (h : o.status = .refused ∨ o.status = .insufficientEvidence) : GateSound i ↔ o.reasonFailed i := by
  have hrefused : (finalize o.brief).refused = true := finalize_refused h
  unfold GateSound
  dsimp only
  rw [ho, hrefused]
  exact ⟨fun hs => hs.2 rfl, fun hr => ⟨nofun, fun _ => hr⟩⟩

theorem gateSound_answered {i : Input} {o : Outcome} (ho : gateAnswer i = o) (h : o.status = .answered) :
    GateSound i ↔ scanPii o.answer = [] ∧ MarkersBacked i o.answer ∧
      (∀ c ∈ o.claims, c.dropped = true → ¬ c.text <:+: o.answer) ∧
      (i.isHighRisk = true → ∃ c ∈ o.claims, c.dropped = false ∧ c.evidence ≠ []) := by
  obtain ⟨hrefused, hanswer⟩ := finalize_answered (o := o.brief) h
  unfold GateSound
  dsimp only
  rw [ho, hrefused, hanswer]
  exact ⟨fun hs => hs.1 rfl, fun hd => ⟨fun _ => hd, nofun⟩⟩

theorem gateSound_checked {i : Input} (hearly : i.early = false) (hschema : schemaFails i.answer i.claims = false) :
    GateSound i ↔ (i.isHighRisk = true ∧ i.backed = false) ∨
      (i.overlong = false ∧ (scanPii i.answer = [] ∨ scanPii i.kept = []) ∧
        ((∀ c ∈ i.claims, i.flagged c = true) ∨ i.keptSound)) := by
  have hunfold : gateAnswer i =
      if (hardFailures i i.kept).any (failedNames (gateChecks i (settleClaims i).1 (settleClaims i).2)).contains then
        { answer := [], status := .refused, action := .refuse, claims := (settleClaims i).1
          checks := gateChecks i (settleClaims i).1 (settleClaims i).2
          refusalReason := (hardFailures i i.kept).head?.map .check }
      else if (scanPii i.answer ≠ [] ∨ (settleClaims i).1.any (·.dropped)) ∧ (settleClaims i).1.all (·.dropped) then
        { answer := [], status := .insufficientEvidence, action := .refuse, claims := (settleClaims i).1
          checks := gateChecks i (settleClaims i).1 (settleClaims i).2, refusalReason := some .allClaimsDropped }
      else
        { answer := i.kept, status := .answered
          action := if scanPii i.answer ≠ [] ∨ (settleClaims i).1.any (·.dropped) then .dropClaims else .returnAnswer
          claims := (settleClaims i).1, checks := gateChecks i (settleClaims i).1 (settleClaims i).2
          refusalReason := none } := by
    unfold gateAnswer
    rw [if_neg (by rw [hearly]; exact Bool.false_ne_true),
      if_neg (by rw [show schemaFails i.answer (buildClaims i.answer i.items) = false from hschema]
                 exact Bool.false_ne_true)]
    dsimp only
    rw [settled_kept]
  have hfails := gateChecks_fail i (settleClaims i).1 (settleClaims_check i)
  have hhard := hardFailures_any i (settleClaims i).1 i.kept (settleClaims_check i)
  rw [settled_backed] at hfails hhard
  -- the schema has a claim
  have hclaims : i.claims ≠ [] := by
    intro hnone
    rw [hnone] at hschema
    cases hblank : blankText i.answer <;> simp [schemaFails, hblank] at hschema
  by_cases hh : (hardFailures i i.kept).any
      (failedNames (gateChecks i (settleClaims i).1 (settleClaims i).2)).contains = true
  · rw [if_pos hh] at hunfold
    -- the reason given is always the high-risk check
    have hreason : GateSound i ↔ i.isHighRisk = true ∧ i.backed = false :=
      (gateSound_refused hunfold (.inl rfl)).trans hfails.1
    rw [hreason]
    refine ⟨.inl, ?_⟩
    rintro (hrisk | ⟨hlong, hpii, -⟩)
    · exact hrisk
    · rcases hhard.1 hh with hrisk | hoverlong | ⟨hanswer, hkept⟩
      · exact hrisk
      · rw [hlong] at hoverlong
        cases hoverlong
      · rcases hpii with hpii | hpii
        · exact absurd hpii hanswer
        · exact absurd hpii hkept
  · rw [if_neg hh] at hunfold
    rw [hhard] at hh
    push Not at hh
    obtain ⟨hrisk, hlong, hresidue⟩ := hh
    have hnotRisk : ¬ (i.isHighRisk = true ∧ i.backed = false) := fun h => hrisk h.1 h.2
    have hpii : scanPii i.answer = [] ∨ scanPii i.kept = [] := by
      by_cases hanswer : scanPii i.answer = []
      · exact .inl hanswer
      · exact .inr (hresidue hanswer)
    rw [or_iff_right hnotRisk]
    by_cases hall : ∀ c ∈ i.claims, i.flagged c = true
    · obtain ⟨c, hc⟩ := List.exists_mem_of_ne_nil _ hclaims
      have hallDropped := (settled_all i).2 hall
      have hany : (settleClaims i).1.any (·.dropped) = true := by
        obtain ⟨f, hf, -⟩ := settleClaims_map i
        rw [hf, List.any_eq_true]
        refine ⟨f c, List.mem_map_of_mem hc, hallDropped (f c) ?_⟩
        rw [hf]
        exact List.mem_map_of_mem hc
      rw [if_pos ⟨.inr hany, List.all_eq_true.2 hallDropped⟩] at hunfold
      have hsound : GateSound i :=
        (gateSound_refused hunfold (.inr rfl)).2 ⟨hallDropped, failed_of_flagged hc (hall c hc)⟩
      exact ⟨fun _ => ⟨by simpa using hlong, hpii, .inl hall⟩, fun _ => hsound⟩
    · have hnotAll : ¬ ((scanPii i.answer ≠ [] ∨ (settleClaims i).1.any (·.dropped) = true) ∧
          (settleClaims i).1.all (·.dropped) = true) := by
        rintro ⟨-, hdropped⟩
        exact hall ((settled_all i).1 (List.all_eq_true.1 hdropped))
      rw [if_neg hnotAll] at hunfold
      rw [gateSound_answered hunfold rfl]
      have hsurvivor : i.isHighRisk = true → ∃ c ∈ (settleClaims i).1, c.dropped = false ∧ c.evidence ≠ [] := by
        intro hr
        refine settled_survivor ?_
        rw [← Bool.not_eq_false]
        exact hrisk hr
      have htexts := settled_texts i (P := fun text => ¬ text <:+: i.kept)
      constructor
      · rintro ⟨hkept, hmarkers, hdropped, -⟩
        exact ⟨by simpa using hlong, hpii, .inr ⟨hkept, hmarkers, htexts.1 hdropped⟩⟩
      · rintro ⟨-, -, hflagged | ⟨hkept, hmarkers, hdropped⟩⟩
        · exact absurd hflagged hall
        · exact ⟨hkept, hmarkers, htexts.2 hdropped, hsurvivor⟩

def fencedNumber : Input where
  answer := ['`', '`', '`', '\n', '1', '3', '8', '0', '0', '1', '3', '8', '0', '0', '0', '\n', '`', '`', '`']
  items := []

end Rag
end MyGpt
