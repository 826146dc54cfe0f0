import MyGpt.Compaction
import Mathlib.Data.List.Dedup
/-!
# CompactedTranscript — calls and results in a compacted transcript, and when it is valid

The repair closes the newest tail under the units it refers to (`mem_enforce`), among the messages behind the protected
fragments only; an id that is issued twice there has one caller, the later one.  The messages behind the protected fragments
are kept with their units; a protected call whose results are behind the fragments is no member of any unit there.
-/
namespace MyGpt
namespace Compaction

/-! ## what is asked for -/

/-- `r` is a result of the call `tid` that `c` has issued. -/
abbrev Pair (msg : Ref → Message) (messages : List Ref) (c r : Ref) (tid : String) : Prop :=
  Pairing.Pair (fun m tid => tid ∈ (msg m).issues) (fun m tid => (msg m).answers = some tid) messages c r tid

/-- **Calls and results stay together**: a result comes after its call, and a call has its results behind it. -/
structure Valid (msg : Ref → Message) (messages : List Ref) (out : List Entry) : Prop where
  results : ∀ r tid, .original r ∈ out → (msg r).answers = some tid →
    ∃ c, Pair msg messages c r tid ∧ List.Sublist [.original c, .original r] out
  calls : ∀ c r tid, Pair msg messages c r tid → .original c ∈ out → List.Sublist [.original c, .original r] out

/-- **The contract of a compaction.** -/
structure Contract (msg : Ref → Message) (encode : String → Nat) (options : Options)
    (summarize : List Message → Option String) (messages : List Ref) (split : Split) (out : List Entry) : Prop where
  valid : Valid msg messages out
  system : split.sysMsgs = messages.takeWhile (isSystem msg)
  fragments : split.protectedBody = (compactable msg messages).take options.protectedCount.toNat
  verbatim : out = (split.sysMsgs ++ split.protectedBody).map .original ++
    (if split.older = [] then [] else [.summary (summaryMsg encode options ((summarize (split.older.map msg)).getD ""))]) ++
    split.tail.map .original
  order : ∃ body, messages = split.sysMsgs ++ split.protectedBody ++ body ∧ (split.older ++ split.tail).Perm body ∧
    List.Sublist split.tail body ∧ List.Sublist split.older body

/-! ## when it holds -/

/-- With what is behind it, `m` fits into the budget. -/
def Fits (tokens : Ref → Nat) (budget : Int) (m : Ref) (after : List Ref) : Prop :=
  after = [] ∨ ((after.map tokens).sum : Nat) < budget ∧ ((tokens m + (after.map tokens).sum : Nat) : Int) ≤ budget

/-- `m` is one of the newest messages, as many as fit. -/
def Newest (tokens : Ref → Nat) (budget : Int) (body : List Ref) (m : Ref) : Prop :=
  ∃ before after, body = before ++ m :: after ∧ Fits tokens budget m after

/-- An id that is carried along: a newest message refers to it, or the caller of one that is issues it as well. -/
inductive Carried (msg : Ref → Message) (body : List Ref) (newest : Ref → Prop) : String → Prop
  | newest {m : Ref} {tid : String} (hm : newest m) (htid : tid ∈ (msg m).referencedIds) : Carried msg body newest tid
  | caller {m : Ref} {tid tid' : String} (h : Carried msg body newest tid) (hm : callerOf msg body tid = some m)
      (htid : tid' ∈ (msg m).issues) : Carried msg body newest tid'

section condition

variable (msg : Ref → Message) (encode : String → Nat) (options : Options) (messages : List Ref)

def IsNewest (m : Ref) : Prop :=
  Newest (fun m => estimateMessagesTokens encode [msg m]) options.keepRecentTokens (bodyMsgs msg options messages) m

def IsCarried (tid : String) : Prop :=
  Carried msg (bodyMsgs msg options messages) (IsNewest msg encode options messages) tid

/-- **The condition**: the protected calls with a result behind the fragments are carried along, and so is every message that
has issued an id that is. -/
structure Carries : Prop where
  fragments : ∀ c r tid, Pair msg messages c r tid → c ∉ bodyMsgs msg options messages → r ∈ bodyMsgs msg options messages →
    IsCarried msg encode options messages tid
  callers : ∀ c r tid, Pair msg messages c r tid → c ∈ bodyMsgs msg options messages →
    IsCarried msg encode options messages tid → IsNewest msg encode options messages c ∨
      ∃ tid', IsCarried msg encode options messages tid' ∧ callerOf msg (bodyMsgs msg options messages) tid' = some c

end condition

/-! ## the newest tail -/

theorem Newest.mem {tokens : Ref → Nat} {budget : Int} {body : List Ref} {m : Ref} (h : Newest tokens budget body m) : m ∈ body := by
  obtain ⟨before, after, rfl, -⟩ := h
  simp

theorem mem_newestTail_from {tokens : Ref → Nat} {budget : Int} {m' : Ref} : ∀ (rest tail : List Ref) (used : Nat),
    used = (tail.map tokens).sum → (tail = [] ∨ (used : Int) < budget) →
    (m' ∈ (newestTail tokens budget rest tail used).1 ↔
      m' ∈ tail ∨ ∃ before after, rest.reverse = before ++ m' :: after ∧ Fits tokens budget m' (after ++ tail))
  | [], tail, used, _, _ => by simp [newestTail]
  | m :: rest, tail, used, hused, hopen => by
    -- the places of `m'` before the tail: at `m`, or before it
    have hplaces : (∃ before after, (m :: rest).reverse = before ++ m' :: after ∧ Fits tokens budget m' (after ++ tail)) ↔
        m' = m ∧ Fits tokens budget m tail ∨
          ∃ before after, rest.reverse = before ++ m' :: after ∧ Fits tokens budget m' (after ++ m :: tail) := by
      rw [List.reverse_cons]
      constructor
      · rintro ⟨before, after, hsplit, hfits⟩
        rcases List.eq_nil_or_concat after with rfl | ⟨after, last, rfl⟩
        · obtain ⟨-, hlast⟩ := List.append_inj' hsplit rfl
          obtain rfl := List.singleton_inj.1 hlast
          exact .inl ⟨rfl, hfits⟩
        · have hsplit' : rest.reverse ++ [m] = (before ++ m' :: after) ++ [last] := by simpa using hsplit
          obtain ⟨hfront, hlast⟩ := List.append_inj' hsplit' rfl
          obtain rfl := List.singleton_inj.1 hlast
          refine .inr ⟨before, after, hfront, ?_⟩
          simpa using hfits
      · rintro (⟨rfl, hfits⟩ | ⟨before, after, hsplit, hfits⟩)
        · exact ⟨rest.reverse, [], rfl, hfits⟩
        · refine ⟨before, after ++ [m], by simp [hsplit], ?_⟩
          simpa using hfits
    -- what is before `m` costs `m` as well
    have hbefore : ∀ after, Fits tokens budget m' (after ++ m :: tail) → ((used + tokens m : Nat) : Int) < budget := by
      intro after hfits
      rcases hfits with hempty | ⟨hless, -⟩
      · simp at hempty
      · simp only [List.map_append, List.map_cons, List.sum_append, List.sum_cons] at hless
        omega
    rw [hplaces, newestTail]
    split
    · rename_i hbreak
      constructor
      · exact Or.inl
      · rintro (hm | ⟨-, hfits⟩ | ⟨before, after, -, hfits⟩)
        · exact hm
        · rcases hfits with hempty | ⟨-, hle⟩
          · exact absurd hempty hbreak.1
          · omega
        · have hless := hbefore after hfits
          omega
    · rename_i hgo
      have hfit : Fits tokens budget m tail := by
        rcases hopen with hempty | hless
        · exact .inl hempty
        · by_cases hempty : tail = []
          · exact .inl hempty
          · have hle : ¬ budget < (used + tokens m : Nat) := fun hlt => hgo ⟨hempty, hlt⟩
            exact .inr ⟨by omega, by omega⟩
      split
      · rename_i hfull
        constructor
        · intro hm
          rcases List.mem_cons.1 hm with rfl | hm
          · exact .inr (.inl ⟨rfl, hfit⟩)
          · exact .inl hm
        · rintro (hm | ⟨rfl, -⟩ | ⟨before, after, -, hfits⟩)
          · exact List.mem_cons_of_mem _ hm
          · exact List.mem_cons_self
          · have hless := hbefore after hfits
            omega
      · rename_i hroom
        have hsum : used + tokens m = ((m :: tail).map tokens).sum := by
          simp only [List.map_cons, List.sum_cons]
          omega
        rw [mem_newestTail_from rest (m :: tail) _ hsum (.inr (by omega)), List.mem_cons]
        constructor
        · rintro ((rfl | hm) | hearlier)
          · exact .inr (.inl ⟨rfl, hfit⟩)
          · exact .inl hm
          · exact .inr (.inr hearlier)
        · rintro (hm | ⟨rfl, -⟩ | hearlier)
          · exact .inl (.inr hm)
          · exact .inl (.inl rfl)
          · exact .inr hearlier

theorem mem_newestTail (tokens : Ref → Nat) (budget : Int) (body : List Ref) (m : Ref) :
    m ∈ (newestTail tokens budget body.reverse [] 0).1 ↔ Newest tokens budget body m := by
  rw [mem_newestTail_from body.reverse [] 0 rfl (.inl rfl)]
  simp [Newest]

/-! ## the repair -/

section repair

variable {msg : Ref → Message} {body : List Ref}

theorem callerOf_mem {tid : String} {m : Ref} (h : callerOf msg body tid = some m) : m ∈ body ∧ tid ∈ (msg m).issues := by
  refine ⟨?_, ?_⟩
  · exact List.mem_reverse.1 (List.mem_of_find?_eq_some h)
  · simpa using List.find?_some h

theorem mem_resultsOf {tid : String} {m : Ref} : m ∈ resultsOf msg body tid ↔ m ∈ body ∧ (msg m).answers = some tid := by
  simp [resultsOf]

theorem mem_linked {m m' : Ref} : m' ∈ linked msg body m ↔
    ∃ tid ∈ (msg m).referencedIds, callerOf msg body tid = some m' ∨ m' ∈ resultsOf msg body tid := by
  simp [linked]

theorem answers_of_issues {m : Message} {tid : String} (h : tid ∈ m.issues) : m.answers = none := by
  unfold Message.issues at h
  unfold Message.answers
  split at h
  · rename_i hrole
    rw [hrole]
    rfl
  · cases h

def Kept (msg : Ref → Message) (body : List Ref) (newest : Ref → Prop) (m : Ref) : Prop :=
  newest m ∨ ∃ tid, Carried msg body newest tid ∧ (callerOf msg body tid = some m ∨ m ∈ resultsOf msg body tid)

theorem Kept.carried {newest : Ref → Prop} {m : Ref} (h : Kept msg body newest m) {tid : String} (htid : tid ∈ (msg m).referencedIds) :
    Carried msg body newest tid := by
  rcases h with hnewest | ⟨tid', hcarried, hcaller | hresult⟩
  · exact .newest hnewest htid
  · have hnone := answers_of_issues (callerOf_mem hcaller).2
    rw [Message.referencedIds, hnone] at htid
    exact .caller hcarried hcaller (by simpa using htid)
  · have hanswers := (mem_resultsOf.1 hresult).2
    rcases List.mem_append.1 htid with hissues | hsame
    · rw [answers_of_issues hissues] at hanswers
      cases hanswers
    · rw [hanswers] at hsame
      rw [List.mem_singleton.1 hsame]
      exact hcarried

theorem mem_tailIds (tail : List Ref) (m : Ref) :
    m ∈ tailIds msg body tail ↔ Kept msg body (fun m => m ∈ tail) m := by
  have hbody : ∀ x, ∀ y ∈ linked msg body x, y ∈ body.dedup := by
    intro x y hy
    obtain ⟨tid, -, hcaller | hresult⟩ := mem_linked.1 hy
    · exact List.mem_dedup.2 (callerOf_mem hcaller).1
    · exact List.mem_dedup.2 (mem_resultsOf.1 hresult).1
  have hfuel : Worklist.unseen body.dedup tail + tail.reverse.length ≤ body.length + tail.length := by
    have hunseen : Worklist.unseen body.dedup tail ≤ body.dedup.length := List.length_filter_le _ _
    have hdedup := (List.dedup_sublist body).length_le
    rw [List.length_reverse]
    omega
  obtain ⟨hkeep, hclosed⟩ := Worklist.search_closed (List.nodup_dedup body) hbody _ tail tail.reverse hfuel
  have hlinked : ∀ x ∈ tailIds msg body tail, ∀ y ∈ linked msg body x, y ∈ tailIds msg body tail := by
    intro x hx
    apply hclosed
    by_cases hold : x ∈ tail
    · exact .inl (List.mem_reverse.2 hold)
    · exact .inr ⟨hx, hold⟩
  constructor
  · refine Worklist.search_forall ?_ _ _ _ (fun x hx => .inl hx) (fun x hx => .inl (List.mem_reverse.1 hx)) m
    intro x hx y hy
    obtain ⟨tid, htid, hunit⟩ := mem_linked.1 hy
    exact .inr ⟨tid, hx.carried htid, hunit⟩
  · -- a carried id has its whole unit in the closure
    have hunit : ∀ tid, Carried msg body (fun m => m ∈ tail) tid → ∀ y,
        callerOf msg body tid = some y ∨ y ∈ resultsOf msg body tid → y ∈ tailIds msg body tail := by
      intro tid hcarried
      induction hcarried with
      | newest hm htid =>
        intro y hy
        exact hlinked _ (hkeep _ hm) y (mem_linked.2 ⟨_, htid, hy⟩)
      | caller _ hm htid ih =>
        intro y hy
        exact hlinked _ (ih _ (.inl hm)) y (mem_linked.2 ⟨_, List.mem_append_left _ htid, hy⟩)
    rintro (hm | ⟨tid, hcarried, hy⟩)
    · exact hkeep m hm
    · exact hunit tid hcarried m hy

theorem Kept.mem {newest : Ref → Prop} (hnewest : ∀ m, newest m → m ∈ body) {m : Ref} (h : Kept msg body newest m) : m ∈ body := by
  rcases h with hm | ⟨tid, -, hcaller | hresult⟩
  · exact hnewest m hm
  · exact (callerOf_mem hcaller).1
  · exact (mem_resultsOf.1 hresult).1

theorem mem_enforce {tail : List Ref} (htail : ∀ m ∈ tail, m ∈ body) (m : Ref) :
    m ∈ enforceToolPairAtomicity msg body tail ↔ Kept msg body (fun m => m ∈ tail) m := by
  unfold enforceToolPairAtomicity
  split
  · rename_i hempty
    subst hempty
    refine ⟨nofun, ?_⟩
    rintro (hm | ⟨tid, hcarried, -⟩)
    · exact hm
    · exfalso
      induction hcarried with
      | newest hm _ => cases hm
      | caller _ _ _ ih => exact ih
  · simp only [List.mem_filter, decide_eq_true_eq, mem_tailIds tail]
    exact ⟨And.right, fun h => ⟨h.mem htail, h⟩⟩

theorem enforce_eq_filter (tail : List Ref) : ∃ p : Ref → Bool, enforceToolPairAtomicity msg body tail = body.filter p := by
  unfold enforceToolPairAtomicity
  split
  · rename_i hempty
    exact ⟨fun _ => false, by simp [hempty]⟩
  · exact ⟨_, rfl⟩

end repair

/-! ## the fragments -/

section split

variable {msg : Ref → Message} {encode : String → Nat} {options : Options}

def protectedHead (msg : Ref → Message) (options : Options) (messages : List Ref) : List Ref :=
  messages.takeWhile (isSystem msg) ++ (compactable msg messages).take (cut msg options messages)

theorem head_append_body (msg : Ref → Message) (options : Options) (messages : List Ref) : protectedHead msg options messages ++ bodyMsgs msg options messages = messages := by
  rw [protectedHead, bodyMsgs, List.append_assoc, List.take_append_drop, compactable, List.takeWhile_append_dropWhile]

theorem split_head (msg : Ref → Message) (encode : String → Nat) (options : Options) (messages : List Ref) :
    (splitForCompaction msg encode options messages).sysMsgs = messages.takeWhile (isSystem msg) ∧
      (splitForCompaction msg encode options messages).protectedBody =
        (compactable msg messages).take (cut msg options messages) := by
  unfold splitForCompaction
  split
  · rename_i hempty
    subst hempty
    simp [compactable]
  · exact ⟨rfl, rfl⟩

theorem mem_split_tail (hpairs : options.preserveToolPairs = true) (messages : List Ref) (m : Ref) :
    m ∈ (splitForCompaction msg encode options messages).tail ↔
      Kept msg (bodyMsgs msg options messages) (IsNewest msg encode options messages) m := by
  have hnewest : (fun m => m ∈ (newestTail (fun m => estimateMessagesTokens encode [msg m]) options.keepRecentTokens
      (bodyMsgs msg options messages).reverse [] 0).1) = IsNewest msg encode options messages := by
    funext m
    exact propext (mem_newestTail _ _ _ m)
  have hsub : ∀ m ∈ (newestTail (fun m => estimateMessagesTokens encode [msg m]) options.keepRecentTokens
      (bodyMsgs msg options messages).reverse [] 0).1, m ∈ bodyMsgs msg options messages := by
    intro m hm
    exact ((mem_newestTail _ _ _ m).1 hm).mem
  have henforce : _ ↔ Kept msg _ _ m := mem_enforce hsub m
  rw [hnewest] at henforce
  rw [← henforce]
  unfold splitForCompaction
  split
  · rename_i hempty
    subst hempty
    simp [bodyMsgs, compactable, newestTail, enforceToolPairAtomicity]
  · simp

theorem split_tail_eq_filter (msg : Ref → Message) (encode : String → Nat) {options : Options}
    (hpairs : options.preserveToolPairs = true) (messages : List Ref) :
    ∃ p : Ref → Bool, (splitForCompaction msg encode options messages).tail = (bodyMsgs msg options messages).filter p := by
  unfold splitForCompaction
  split
  · rename_i hempty
    subst hempty
    exact ⟨fun _ => true, by simp [bodyMsgs, compactable]⟩
  · simp only
    exact enforce_eq_filter _

theorem split_older (messages : List Ref) : (splitForCompaction msg encode options messages).older =
    (bodyMsgs msg options messages).filter (fun m => m ∉ (splitForCompaction msg encode options messages).tail) := by
  by_cases hempty : messages = []
  · subst hempty
    simp [splitForCompaction, bodyMsgs, compactable]
  · simp [splitForCompaction, hempty]

theorem split_partition (hpairs : options.preserveToolPairs = true) (messages : List Ref) :
    ((splitForCompaction msg encode options messages).older ++ (splitForCompaction msg encode options messages).tail).Perm
      (bodyMsgs msg options messages) := by
  obtain ⟨p, hp⟩ := split_tail_eq_filter msg encode hpairs messages
  have holder : (splitForCompaction msg encode options messages).older =
      (bodyMsgs msg options messages).filter (fun m => !p m) := by
    rw [split_older, hp]
    apply List.filter_congr
    intro m hm
    simp [hm]
  rw [holder, hp]
  exact List.perm_append_comm.trans (List.filter_append_perm p _)

theorem compactMessages_eq (hpairs : options.preserveToolPairs = true) (summarize : List Message → Option String)
    (messages : List Ref) : (compactMessages msg encode options summarize messages).1 =
      (protectedHead msg options messages).map .original ++
        (if (splitForCompaction msg encode options messages).older = [] then [] else
          [.summary (summaryMsg encode options ((summarize ((splitForCompaction msg encode options messages).older.map msg)).getD ""))]) ++
        (splitForCompaction msg encode options messages).tail.map .original := by
  have hwhole : (splitForCompaction msg encode options messages).older = [] →
      protectedHead msg options messages ++ (splitForCompaction msg encode options messages).tail = messages := by
    intro hnone
    obtain ⟨p, hp⟩ := split_tail_eq_filter msg encode hpairs messages
    rw [split_older, List.filter_eq_nil_iff] at hnone
    have hall : (splitForCompaction msg encode options messages).tail = bodyMsgs msg options messages := by
      rw [hp, List.filter_eq_self]
      intro m hm
      have hkept := hnone m hm
      rw [hp] at hkept
      simpa [hm] using hkept
    rw [hall, head_append_body]
  unfold compactMessages
  split
  · rename_i hempty
    subst hempty
    simp [splitForCompaction, protectedHead, compactable]
  · split
    · rename_i hnone
      rw [if_pos hnone, List.append_nil, ← List.map_append, hwhole hnone]
    · rename_i hsome
      obtain ⟨hsys, hprotected⟩ := split_head msg encode options messages
      rw [if_neg hsome]
      dsimp only [assembleCompacted]
      rw [hsys, hprotected]
      rfl

end split

/-! ## validity -/

section valid

variable {msg : Ref → Message} {encode : String → Nat} {options : Options} (summarize : List Message → Option String)

theorem mem_compacted (msg : Ref → Message) (encode : String → Nat) {options : Options} (hpairs : options.preserveToolPairs = true) (messages : List Ref) (m : Ref) :
    .original m ∈ (compactMessages msg encode options summarize messages).1 ↔
      m ∈ protectedHead msg options messages ∨
        Kept msg (bodyMsgs msg options messages) (IsNewest msg encode options messages) m := by
  rw [compactMessages_eq hpairs, ← mem_split_tail hpairs]
  split <;> simp

theorem sublist_compacted (hpairs : options.preserveToolPairs = true) (t : Transcript msg) {c r : Ref}
    (h : List.Sublist [c, r] t.messages)
    (hc : .original c ∈ (compactMessages msg encode options summarize t.messages).1)
    (hr : .original r ∈ (compactMessages msg encode options summarize t.messages).1) :
    List.Sublist [.original c, .original r] (compactMessages msg encode options summarize t.messages).1 := by
  obtain ⟨p, hp⟩ := split_tail_eq_filter msg encode hpairs t.messages
  rw [mem_compacted summarize msg encode hpairs, ← mem_split_tail hpairs, ← List.mem_append, hp] at hc hr
  have hdistinct := t.distinct
  rw [← head_append_body msg options t.messages] at h hdistinct
  have hkept := (Pairing.sublist_filter hdistinct h p hc hr).map Entry.original
  rw [compactMessages_eq hpairs, hp]
  refine hkept.trans ?_
  rw [List.map_append]
  exact (List.sublist_append_left _ _).append (List.Sublist.refl _)

theorem not_head_of_body (t : Transcript msg) {m : Ref} (hm : m ∈ bodyMsgs msg options t.messages) :
    m ∉ protectedHead msg options t.messages := by
  intro hhead
  have hdistinct := t.distinct
  rw [← head_append_body msg options t.messages] at hdistinct
  exact (List.nodup_append.1 hdistinct).2.2 m hhead m hm rfl

theorem result_behind (t : Transcript msg) {c r : Ref} (h : List.Sublist [c, r] t.messages)
    (hc : c ∈ bodyMsgs msg options t.messages) : r ∈ bodyMsgs msg options t.messages := by
  rw [← head_append_body msg options t.messages] at h
  rcases Pairing.sublist_halves h with hhead | ⟨-, hr⟩ | hbody
  · exact absurd (hhead.subset (by simp)) (not_head_of_body t hc)
  · exact hr
  · exact hbody.subset (by simp)

theorem mem_head_or_body (options : Options) (messages : List Ref) {m : Ref} (hm : m ∈ messages) :
    m ∈ protectedHead msg options messages ∨ m ∈ bodyMsgs msg options messages := by
  rw [← head_append_body msg options messages] at hm
  exact List.mem_append.1 hm

theorem result_kept_iff {messages : List Ref} {r : Ref} {tid : String} (hr : r ∈ bodyMsgs msg options messages)
    (hanswers : (msg r).answers = some tid) :
    Kept msg (bodyMsgs msg options messages) (IsNewest msg encode options messages) r ↔ IsCarried msg encode options messages tid := by
  constructor
  · intro hkept
    refine hkept.carried ?_
    simp [Message.referencedIds, hanswers]
  · intro hcarried
    exact .inr ⟨tid, hcarried, .inr (mem_resultsOf.2 ⟨hr, hanswers⟩)⟩

/-- **A caller behind the fragments** is kept when it is one of the newest messages or the caller of a carried id. -/
theorem caller_kept_iff {messages : List Ref} {c : Ref} {tid : String} (hissues : tid ∈ (msg c).issues) :
    Kept msg (bodyMsgs msg options messages) (IsNewest msg encode options messages) c ↔
      IsNewest msg encode options messages c ∨ ∃ tid', IsCarried msg encode options messages tid' ∧
        callerOf msg (bodyMsgs msg options messages) tid' = some c := by
  constructor
  · rintro (hnewest | ⟨tid', hcarried, hcaller | hresult⟩)
    · exact .inl hnewest
    · exact .inr ⟨tid', hcarried, hcaller⟩
    · have hanswers := (mem_resultsOf.1 hresult).2
      rw [answers_of_issues hissues] at hanswers
      cases hanswers
  · rintro (hnewest | ⟨tid', hcarried, hcaller⟩)
    · exact .inl hnewest
    · exact .inr ⟨tid', hcarried, .inl hcaller⟩

theorem valid_iff (hpairs : options.preserveToolPairs = true) (t : Transcript msg) :
    Valid msg t.messages (compactMessages msg encode options summarize t.messages).1 ↔ Carries msg encode options t.messages := by
  have hmem := mem_compacted summarize msg encode hpairs t.messages
  constructor
  · intro h
    refine ⟨?_, ?_⟩
    · intro c r tid hpair hc hr
      have hhead := (mem_head_or_body options t.messages (hpair.sublist.subset (by simp))).resolve_right hc
      have hboth := h.calls c r tid hpair ((hmem c).2 (.inl hhead))
      have hkept := ((hmem r).1 (hboth.subset (by simp))).resolve_left (not_head_of_body t hr)
      exact (result_kept_iff hr hpair.right).1 hkept
    · intro c r tid hpair hc hcarried
      have hr := result_behind t hpair.sublist hc
      have hrkept := (result_kept_iff hr hpair.right).2 hcarried
      obtain ⟨c', hpair', hboth⟩ := h.results r tid ((hmem r).2 (.inr hrkept)) hpair.right
      obtain rfl : c = c' := hpair.unique t.distinct hpair'
      have hckept := ((hmem c).1 (hboth.subset (by simp))).resolve_left (not_head_of_body t hc)
      exact (caller_kept_iff hpair.left).1 hckept
  · intro h
    refine ⟨?_, ?_⟩
    · intro r tid hr hanswers
      have hmember : r ∈ t.messages := by
        rw [← head_append_body msg options t.messages]
        rcases (hmem r).1 hr with hhead | hkept
        · exact List.mem_append_left _ hhead
        · exact List.mem_append_right _ (hkept.mem (fun m hm => hm.mem))
      obtain ⟨c, hpair⟩ := t.issued.exists_pair hmember hanswers
      refine ⟨c, hpair, sublist_compacted summarize hpairs t hpair.sublist ?_ hr⟩
      rw [hmem]
      rcases mem_head_or_body options t.messages (hpair.sublist.subset (by simp : c ∈ [c, r])) with hhead | hbody
      · exact .inl hhead
      · have hrbody := result_behind t hpair.sublist hbody
        have hrkept := ((hmem r).1 hr).resolve_left (not_head_of_body t hrbody)
        have hcarried := (result_kept_iff hrbody hpair.right).1 hrkept
        exact .inr ((caller_kept_iff hpair.left).2 (h.callers c r tid hpair hbody hcarried))
    · intro c r tid hpair hc
      refine sublist_compacted summarize hpairs t hpair.sublist hc ?_
      rw [hmem]
      rcases mem_head_or_body options t.messages (hpair.sublist.subset (by simp : r ∈ [c, r])) with hhead | hrbody
      · exact .inl hhead
      · refine .inr ((result_kept_iff hrbody hpair.right).2 ?_)
        rcases (hmem c).1 hc with hhead | hkept
        · exact h.fragments c r tid hpair (fun hbody => not_head_of_body t hbody hhead) hrbody
        · refine hkept.carried ?_
          exact List.mem_append_left _ hpair.left

/-! ## the contract -/

/-- **A compaction meets its contract exactly when the condition holds.** -/
theorem compaction_valid_iff (msg : Ref → Message) (encode : String → Nat) (options : Options)
    (summarize : List Message → Option String) (t : Transcript msg) :
    Contract msg encode { options with preserveToolPairs := true } summarize t.messages
        (splitForCompaction msg encode { options with preserveToolPairs := true } t.messages)
        (compactMessages msg encode { options with preserveToolPairs := true } summarize t.messages).1 ↔
      Carries msg encode { options with preserveToolPairs := true } t.messages := by
  have hpairs : { options with preserveToolPairs := true }.preserveToolPairs = true := rfl
  generalize { options with preserveToolPairs := true } = options at hpairs
  obtain ⟨hsys, hprotected⟩ := split_head msg encode options t.messages
  constructor
  · intro h
    exact (valid_iff summarize hpairs t).1 h.valid
  · intro h
    refine ⟨(valid_iff summarize hpairs t).2 h, hsys, ?_, ?_, bodyMsgs msg options t.messages, ?_, ?_, ?_, ?_⟩
    · rw [hprotected, cut, ← List.take_eq_take_min]
    · rw [compactMessages_eq hpairs, hsys, hprotected]
      rfl
    · rw [hsys, hprotected]
      exact (head_append_body msg options t.messages).symm
    · exact split_partition hpairs t.messages
    · obtain ⟨p, hp⟩ := split_tail_eq_filter msg encode hpairs t.messages
      rw [hp]
      exact List.filter_sublist
    · rw [split_older]
      exact List.filter_sublist

theorem carries_iff_of_once (t : Transcript msg) (honce : ∀ c c' tid, c ∈ t.messages → c' ∈ t.messages →
    tid ∈ (msg c).issues → tid ∈ (msg c').issues → c = c') :
    Carries msg encode options t.messages ↔ ∀ c r tid, Pair msg t.messages c r tid → c ∉ bodyMsgs msg options t.messages →
      r ∈ bodyMsgs msg options t.messages → ∃ r', (msg r').answers = some tid ∧ IsNewest msg encode options t.messages r' := by
  have hbody : ∀ m ∈ bodyMsgs msg options t.messages, m ∈ t.messages := by
    intro m hm
    rw [← head_append_body msg options t.messages]
    exact List.mem_append_right _ hm
  constructor
  · intro h c r tid hpair hc hr
    have hcmem : c ∈ t.messages := hpair.sublist.subset (by simp)
    -- the one caller is a fragment, so a result has carried its id
    have hnocaller : ∀ m ∈ bodyMsgs msg options t.messages, tid ∉ (msg m).issues := by
      intro m hm hissues
      obtain rfl := honce c m tid hcmem (hbody m hm) hpair.left hissues
      exact hc hm
    cases h.fragments c r tid hpair hc hr with
    | newest hm htid =>
      rename_i m
      rcases List.mem_append.1 htid with hissues | hanswers
      · exact absurd hissues (hnocaller m hm.mem)
      · exact ⟨m, by simpa using hanswers, hm⟩
    | caller _ hm htid => exact absurd htid (hnocaller _ (callerOf_mem hm).1)
  · intro h
    refine ⟨?_, ?_⟩
    · intro c r tid hpair hc hr
      obtain ⟨r', hanswers, hnewest⟩ := h c r tid hpair hc hr
      refine .newest hnewest ?_
      simp [Message.referencedIds, hanswers]
    · intro c r tid hpair hc hcarried
      refine .inr ⟨tid, hcarried, ?_⟩
      cases hcaller : callerOf msg (bodyMsgs msg options t.messages) tid with
      | none =>
        have hnobody := List.find?_eq_none.1 hcaller c (List.mem_reverse.2 hc)
        exact absurd hpair.left (by simpa using hnobody)
      | some m =>
        obtain ⟨hm, hissues⟩ := callerOf_mem hcaller
        rw [honce m c tid (hbody m hm) (hbody c hc) hissues hpair.left]

end valid

def pinned : Ref → Message
  | 0 => ⟨.assistant, .none, [some "call_1"], none⟩
  | 1 => ⟨.tool, .text "found", [], some "call_1"⟩
  | _ => ⟨.user, .text "and now?", [], none⟩

def pinnedTranscript : Transcript pinned where
  messages := [0, 1, 2]
  distinct := by decide
  issued := by
    intro before r after tid hsplit hanswers
    match before, hsplit with
    | [], hsplit =>
      obtain ⟨rfl, -⟩ := List.cons.inj hsplit
      cases hanswers
    | [c], hsplit =>
      obtain ⟨rfl, hrest⟩ := List.cons.inj hsplit
      obtain ⟨rfl, -⟩ := List.cons.inj hrest
      obtain rfl : "call_1" = tid := Option.some.inj hanswers
      exact ⟨0, List.mem_cons_self, by decide⟩
    | [c, m], hsplit =>
      obtain ⟨rfl, hrest⟩ := List.cons.inj hsplit
      obtain ⟨rfl, hlast⟩ := List.cons.inj hrest
      obtain ⟨rfl, -⟩ := List.cons.inj hlast
      cases hanswers
    | c :: m :: m' :: before, hsplit =>
      have hlength := congrArg List.length hsplit
      simp at hlength

/-- **A protected call loses its result.** -/
theorem result_summarised : ¬ ∀ (msg : Ref → Message) (encode : String → Nat) (options : Options)
    (summarize : List Message → Option String) (t : Transcript msg), options.preserveToolPairs = true →
    Contract msg encode options summarize t.messages (splitForCompaction msg encode options t.messages)
      (compactMessages msg encode options summarize t.messages).1 := by
  intro hall
  have hcontract := hall pinned String.length { keepRecentTokens := 0, protectedCount := 1 } (fun _ => none) pinnedTranscript rfl
  have hpair : Pair pinned pinnedTranscript.messages 0 1 "call_1" := ⟨[], [], [2], rfl, by decide, by decide, nofun⟩
  have hout : (compactMessages pinned String.length { keepRecentTokens := 0, protectedCount := 1 } (fun _ => none)
      pinnedTranscript.messages).1 = [.original 0, .summary (summaryMsg String.length { keepRecentTokens := 0, protectedCount := 1 } ""),
        .original 2] := rfl
  have hboth := hcontract.valid.calls 0 1 "call_1" hpair (by rw [hout]; simp)
  rw [hout] at hboth
  have hkept := hboth.subset (List.mem_cons_of_mem _ List.mem_cons_self)
  simp at hkept

end Compaction
end MyGpt
