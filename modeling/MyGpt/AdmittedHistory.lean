import MyGpt.PromptAdmission
/-!
# AdmittedHistory — what trimming leaves of a transcript

The history is cut at the first place that fits, from the oldest turn on (`trimHistory_spec`).  In front of the first user
message every place is one, also the place between a call and its result.
-/
namespace MyGpt
namespace Admission

/-! ## what is asked for -/

def NewestUser (rest : List Message) (i : Nat) : Prop :=
  (∃ m, rest[i]? = some m ∧ m.isUser = true) ∧ ∀ j m, i < j → rest[j]? = some m → m.isUser = false

/-- The `j`-th message is a result of a call that the `i`-th has issued. -/
def Pair (rest : List Message) (i j : Nat) : Prop :=
  ∃ call result tid, i < j ∧ rest[i]? = some call ∧ rest[j]? = some result ∧ tid ∈ call.issues ∧ result.answers = some tid ∧
    ∀ k m, i < k → k < j → rest[k]? = some m → tid ∉ m.issues

def Cut (rest : List Message) (k : Nat) : Prop :=
  k = 0 ∨ ∃ newest, NewestUser rest newest ∧ k ≤ newest ∧
    ((∃ m, rest[k]? = some m ∧ m.isUser = true) ∨ ∀ j m, j < k → rest[j]? = some m → m.isUser = false)

/-- The first message fits with those from `k` on. -/
def Fits (cost : Message → Nat) (budget : Int) (first : Message) (rest : List Message) (k : Nat) : Prop :=
  (total cost (first :: rest.drop k) : Int) ≤ budget

/-- **What an admitted transcript is**: the first message and a suffix of the others. -/
structure Admitted (cost : Message → Nat) (budget : Int) (first : Message) (rest out : List Message) (k : Nat) : Prop where
  suffix : out = first :: rest.drop k
  newest : ∀ i, NewestUser rest i → k ≤ i
  fits : (total cost out : Int) ≤ budget
  whole : (total cost (first :: rest) : Int) ≤ budget → out = first :: rest
  early : ∀ j, j < k → Cut rest j → ¬ Fits cost budget first rest j
  pairs : ∀ i j, Pair rest i j → k ≤ j → k ≤ i

section contract

variable (dumps : Message → String) (encode : String → Nat) (scaled : Int → Int) (config : ModelConfig) (toolSchemaTokens : Int)
  (first : Message) (rest : List Message)

def inputBudget : Except PromptAdmissionError Int :=
  calculatePromptBudget scaled (capabilitiesFromConfig config) (capabilitiesFromConfig config).maxOutputTokens toolSchemaTokens

/-- **The contract of prompt admission.** -/
def Contract : Prop :=
  match admitAndTrimHistory dumps encode scaled config toolSchemaTokens (first :: rest) with
  | .error _ => True
  | .ok out => ∃ budget k, inputBudget scaled config toolSchemaTokens = .ok budget ∧
      Admitted (estimateMessageTokens dumps encode) budget first rest out k

/-- **The condition**: between a call and its result there is no place to cut, or what is behind it does not fit, or something
longer fits. -/
def KeepsPairs : Prop :=
  ∀ budget, inputBudget scaled config toolSchemaTokens = .ok budget → ∀ i j k, Pair rest i j → Cut rest k → i < k → k ≤ j →
    ¬ Fits (estimateMessageTokens dumps encode) budget first rest k ∨
      ∃ k', k' < k ∧ Cut rest k' ∧ Fits (estimateMessageTokens dumps encode) budget first rest k'

end contract

/-! ## places to cut -/

theorem NewestUser.unique {rest : List Message} {i i' : Nat} (h : NewestUser rest i) (h' : NewestUser rest i') : i = i' := by
  obtain ⟨⟨m, hm, huser⟩, hlast⟩ := h
  obtain ⟨⟨m', hm', huser'⟩, hlast'⟩ := h'
  rcases Nat.lt_trichotomy i i' with hlt | heq | hgt
  · have hno := hlast i' m' hlt hm'
    rw [huser'] at hno
    cases hno
  · exact heq
  · have hno := hlast' i m hgt hm
    rw [huser] at hno
    cases hno

structure Last (rest : List Message) (last : Nat) : Prop where
  newest : 0 < last → NewestUser rest last
  none : last = 0 → ∀ i, NewestUser rest i → i = 0

theorem Last.cut_le {rest : List Message} {last k : Nat} (h : Last rest last) (hcut : Cut rest k) : k ≤ last := by
  rcases hcut with rfl | ⟨newest, hnewest, hle, -⟩
  · exact Nat.zero_le _
  · by_cases hpos : 0 < last
    · rw [(h.newest hpos).unique hnewest]
      exact hle
    · have hzero := h.none (by omega) newest hnewest
      omega

theorem latestUserIndex_spec (first : Message) (rest : List Message) :
    1 ≤ latestUserIndex (first :: rest) ∧ Last rest (latestUserIndex (first :: rest) - 1) := by
  unfold latestUserIndex
  rw [List.length_cons, Nat.add_sub_cancel]
  cases hfind : (List.range' 1 rest.length).reverse.find? (fun index => ((first :: rest)[index]?).any (·.isUser)) with
  | none =>
    refine ⟨Nat.le_refl _, fun hpos => absurd hpos (by simp), fun _ i hnewest => ?_⟩
    obtain ⟨⟨m, hm, huser⟩, -⟩ := hnewest
    have hlt := (List.getElem?_eq_some_iff.1 hm).1
    have hnot := List.find?_eq_none.1 hfind (i + 1) (by simp [List.mem_range'_1]; omega)
    simp [hm, huser] at hnot
  | some index =>
    have hin := List.mem_of_find?_eq_some hfind
    simp only [List.mem_reverse, List.mem_range'_1] at hin
    obtain ⟨last, rfl⟩ : ∃ last, index = last + 1 := ⟨index - 1, by omega⟩
    have hnewest : NewestUser rest last := by
      have hhas := List.find?_some hfind
      simp only [List.getElem?_cons_succ, Option.any_eq_true] at hhas
      refine ⟨hhas, ?_⟩
      intro j m hlt hm
      obtain ⟨-, before, after, hsplit, hbefore⟩ := List.find?_eq_some_iff_append.1 hfind
      have hj := (List.getElem?_eq_some_iff.1 hm).1
      have hmem : j + 1 ∈ (List.range' 1 rest.length).reverse := by
        simp [List.mem_range'_1]
        omega
      -- the indices come in descending order
      have hsorted : (List.range' 1 rest.length).reverse.Pairwise (· > ·) := by
        rw [List.pairwise_reverse]
        exact List.pairwise_lt_range'
      rw [hsplit] at hmem hsorted
      have hfront : j + 1 ∈ before := by
        rcases List.mem_append.1 hmem with hfront | hback
        · exact hfront
        · rcases List.mem_cons.1 hback with heq | hback
          · omega
          · have hgt := (List.pairwise_cons.1 (List.pairwise_append.1 hsorted).2.1).1 _ hback
            omega
      have hno := hbefore (j + 1) hfront
      simpa [hm] using hno
    refine ⟨by simp, fun _ => by simpa using hnewest, fun hzero i hi => ?_⟩
    have heq := hi.unique hnewest
    simp at hzero
    omega

/-! ## a round of the loop -/

theorem scanTurn_spec (latest : Nat) : ∀ (messages : List Message) (n : Nat), n ≤ scanTurn latest n messages ∧
    (∀ j m, n + j < scanTurn latest n messages → messages[j]? = some m → m.isUser = false) ∧
    (scanTurn latest n messages < latest → ∀ m, messages[scanTurn latest n messages - n]? = some m → m.isUser = true) ∧
    (n ≤ latest → scanTurn latest n messages ≤ latest)
  | [], n => by simp [scanTurn]
  | m :: messages, n => by
    unfold scanTurn
    split
    · rename_i hgo
      obtain ⟨hle, hskip, hstop, hbound⟩ := scanTurn_spec latest messages (n + 1)
      refine ⟨by omega, ?_, ?_, fun _ => hbound (by omega)⟩
      · intro j m' hj hm'
        cases j with
        | zero =>
          obtain rfl : m = m' := by simpa using hm'
          exact hgo.2
        | succ j => exact hskip j m' (by omega) (by simpa using hm')
      · intro hlt m' hm'
        refine hstop hlt m' ?_
        have hsucc : scanTurn latest (n + 1) messages - n = scanTurn latest (n + 1) messages - (n + 1) + 1 := by omega
        rwa [hsucc, List.getElem?_cons_succ] at hm'
    · rename_i hstop
      refine ⟨Nat.le_refl _, ?_, ?_, fun h => h⟩
      · intro j m' hj
        omega
      · intro hlt m' hm'
        rw [Nat.sub_self] at hm'
        obtain rfl : m = m' := by simpa using hm'
        have hnot : ¬ m.isUser = false := fun hno => hstop ⟨hlt, hno⟩
        simpa using hnot

/-- **A round goes to the next place**: at least one message on, none in between, not behind the newest user message. -/
theorem cutoff_spec {rest : List Message} {last d : Nat} (hlast : Last rest last) (hd : d < last) (hcut : Cut rest d) :
    2 ≤ cutoff (last + 1 - d) (rest.drop d) ∧ d + (cutoff (last + 1 - d) (rest.drop d) - 1) ≤ last ∧
      Cut rest (d + (cutoff (last + 1 - d) (rest.drop d) - 1)) ∧
      ∀ k, d < k → k < d + (cutoff (last + 1 - d) (rest.drop d) - 1) → ¬ Cut rest k := by
  have hnewest := hlast.newest (by omega)
  obtain ⟨⟨newestMessage, hnewestAt, hnewestUser⟩, -⟩ := hnewest
  have hlt := (List.getElem?_eq_some_iff.1 hnewestAt).1
  obtain ⟨m, messages, hdrop⟩ : ∃ m messages, rest.drop d = m :: messages :=
    List.exists_cons_of_ne_nil (by simp; omega)
  have hm : rest[d]? = some m := by
    have hhead := congrArg List.head? hdrop
    simpa [List.head?_drop] using hhead
  have hbehind : ∀ j, messages[j]? = rest[d + 1 + j]? := by
    intro j
    have hget := congrArg (fun l => l[j + 1]?) hdrop
    simp only [List.getElem?_drop, List.getElem?_cons_succ] at hget
    rw [← hget]
    congr 1
    omega
  by_cases huser : m.isUser = true
  · have hcutoff : cutoff (last + 1 - d) (rest.drop d) = scanTurn (last + 1 - d) 2 messages := by
      rw [hdrop, cutoff, if_pos huser]
    rw [hcutoff]
    obtain ⟨hle, hskip, hstop, hbound⟩ := scanTurn_spec (last + 1 - d) messages 2
    generalize scanTurn (last + 1 - d) 2 messages = n at hle hskip hstop hbound
    have hn := hbound (by omega)
    refine ⟨hle, by omega, .inr ⟨last, hlast.newest (by omega), by omega, .inl ?_⟩, ?_⟩
    · -- the scan has stopped at a user message, if not before then at the newest
      by_cases hend : n < last + 1 - d
      · have hin : d + 1 + (n - 2) < rest.length := by omega
        refine ⟨rest[d + 1 + (n - 2)], ?_, hstop hend _ ?_⟩
        · rw [← List.getElem?_eq_getElem hin]
          congr 1
          omega
        · rw [hbehind, List.getElem?_eq_getElem hin]
      · have heq : d + (n - 1) = last := by omega
        rw [heq]
        exact ⟨newestMessage, hnewestAt, hnewestUser⟩
    · rintro k hdk hkn (rfl | ⟨newest, -, -, ⟨m', hm', huser'⟩ | hno⟩)
      · omega
      · have hskipped := hskip (k - (d + 1)) m' (by omega) (by
          rw [hbehind, ← hm']
          congr 1
          omega)
        rw [huser'] at hskipped
        cases hskipped
      · have hfalse := hno d m hdk hm
        rw [huser] at hfalse
        cases hfalse
  · have hcutoff : cutoff (last + 1 - d) (rest.drop d) = 2 := by rw [hdrop, cutoff, if_neg huser]
    rw [hcutoff]
    refine ⟨Nat.le_refl _, by omega, .inr ⟨last, hlast.newest (by omega), by omega, .inr ?_⟩, fun k hdk hk => by omega⟩
    intro j m' hj hm'
    by_cases hjd : j = d
    · subst hjd
      cases hm.symm.trans hm'
      simpa using huser
    · rcases hcut with rfl | ⟨newest, -, -, ⟨m'', hm'', huser''⟩ | hno⟩
      · omega
      · cases hm.symm.trans hm''
        exact absurd huser'' huser
      · exact hno j m' (by omega) hm'

/-! ## the loop -/

section loop

variable {cost : Message → Nat} {budget : Int} {first : Message} {rest : List Message}

theorem total_drop (k n : Nat) : total cost (first :: rest.drop k) - total cost ((rest.drop k).take n) =
    total cost (first :: (rest.drop k).drop n) := by
  have hsplit : total cost (rest.drop k) = total cost ((rest.drop k).take n) + total cost ((rest.drop k).drop n) := by
    unfold total
    rw [← List.sum_append, ← List.map_append, List.take_append_drop]
  unfold total at hsplit ⊢
  simp only [List.map_cons, List.sum_cons]
  omega

/-- **The run of the loop**: from any place on, it goes to the first that fits, or to the newest user message. -/
theorem trimLoop_spec {last : Nat} (hlast : Last rest last) : ∀ (fuel d : Nat), last ≤ fuel + d → d ≤ last → Cut rest d →
    (∀ j, j < d → Cut rest j → ¬ Fits cost budget first rest j) →
    ∃ k, trimLoop cost budget fuel (last + 1 - d) (total cost (first :: rest.drop d)) (rest.drop d) = rest.drop k ∧
      k ≤ last ∧ Cut rest k ∧ (∀ j, j < k → Cut rest j → ¬ Fits cost budget first rest j) ∧
      (k < last → Fits cost budget first rest k) := by
  intro fuel
  induction fuel with
  | zero =>
    intro d hfuel hd hcut hearlier
    exact ⟨d, rfl, hd, hcut, hearlier, fun hlt => by omega⟩
  | succ fuel ih =>
    intro d hfuel hd hcut hearlier
    unfold trimLoop
    split
    · rename_i hgo
      obtain ⟨htwo, hbound, hnext, hbetween⟩ := cutoff_spec hlast (by omega) hcut
      dsimp only
      rw [total_drop, List.drop_drop]
      generalize hstep : cutoff (last + 1 - d) (rest.drop d) - 1 = n at hbound hnext hbetween ⊢
      have hlatest : last + 1 - d - n = last + 1 - (d + n) := by omega
      rw [hlatest]
      refine ih (d + n) (by omega) hbound hnext ?_
      intro j hj hjcut
      rcases Nat.lt_trichotomy j d with hlt | rfl | hgt
      · exact hearlier j hlt hjcut
      · intro hfits
        unfold Fits at hfits
        omega
      · exact absurd hjcut (hbetween j hgt hj)
    · rename_i hstop
      refine ⟨d, rfl, hd, hcut, hearlier, fun hlt => ?_⟩
      unfold Fits
      by_contra hlong
      exact hstop ⟨by omega, by omega⟩

/-- **Trimming** goes to the first place that fits; if none does, to the newest user message. -/
theorem trimHistory_spec (cost : Message → Nat) (budget : Int) (first : Message) (rest : List Message) :
    ∃ k last, Last rest last ∧ trimHistory cost budget (first :: rest) = first :: rest.drop k ∧ k ≤ last ∧ Cut rest k ∧
      (∀ j, j < k → Cut rest j → ¬ Fits cost budget first rest j) ∧ (k < last → Fits cost budget first rest k) := by
  obtain ⟨hpos, hlast⟩ := latestUserIndex_spec first rest
  unfold trimHistory
  dsimp only
  split
  · rename_i hstay
    refine ⟨0, _, hlast, rfl, Nat.zero_le _, .inl rfl, fun j hj => by omega, ?_⟩
    intro hlt
    rcases hstay with rfl | hfits
    · obtain ⟨m, hm, -⟩ := (hlast.newest hlt).1
      cases hm
    · exact hfits
  · have hstart : ∀ j, j < 0 → Cut rest j → ¬ Fits cost budget first rest j := fun j hj => by omega
    obtain ⟨k, hrun, hspec⟩ := trimLoop_spec hlast (latestUserIndex (first :: rest)) 0 (by omega) (Nat.zero_le _) (.inl rfl)
      hstart
    rw [Nat.sub_zero, Nat.sub_add_cancel hpos, List.drop_zero] at hrun
    exact ⟨k, _, hlast, by rw [hrun], hspec⟩

theorem cost_le_total {m : Message} {messages : List Message} (h : m ∈ messages) : cost m ≤ total cost messages := by
  obtain ⟨before, after, rfl⟩ := List.append_of_mem h
  unfold total
  simp only [List.map_append, List.map_cons, List.sum_append, List.sum_cons]
  omega

theorem latest_le_total (first : Message) {rest : List Message} {k last : Nat} (hlast : Last rest last) (hk : k ≤ last) :
    latestUserTurnTokens cost (first :: rest) ≤ total cost (first :: rest.drop k) := by
  unfold latestUserTurnTokens
  split
  · rename_i m hfind
    have hin : m ∈ first :: rest.drop k := by
      obtain ⟨huser, before, after, hsplit, hbefore⟩ := List.find?_eq_some_iff_append.1 hfind
      have hmessages : first :: rest = after.reverse ++ m :: before.reverse := by
        rw [← List.reverse_reverse (first :: rest), hsplit]
        simp
      cases hafter : after.reverse with
      | nil =>
        rw [hafter] at hmessages
        rw [(List.cons.inj hmessages).1]
        exact List.mem_cons_self
      | cons a l =>
        rw [hafter] at hmessages
        have hrest : rest = l ++ m :: before.reverse := (List.cons.inj hmessages).2
        have hnewest : NewestUser rest l.length := by
          refine ⟨⟨m, by simp [hrest], huser⟩, ?_⟩
          intro j m' hlt hm'
          rw [hrest, List.getElem?_append_right (by omega)] at hm'
          obtain ⟨j', hj'⟩ : ∃ j', j - l.length = j' + 1 := ⟨j - l.length - 1, by omega⟩
          rw [hj', List.getElem?_cons_succ] at hm'
          have hnot := hbefore m' (List.mem_reverse.1 (List.mem_of_getElem? hm'))
          simpa using hnot
        have hle : k ≤ l.length := by
          by_cases hzero : last = 0
          · omega
          · rw [← (hlast.newest (by omega)).unique hnewest]
            exact hk
        rw [hrest, List.drop_append_of_le_length hle]
        simp
    exact cost_le_total hin
  · exact Nat.zero_le _

end loop

/-! ## admission -/

theorem calculatePromptBudget_pos {scaled : Int → Int} {caps : ModelCapabilities} {requestedOutput toolSchemaTokens budget : Int}
    (h : calculatePromptBudget scaled caps requestedOutput toolSchemaTokens = .ok budget) : 0 < budget := by
  unfold calculatePromptBudget at h
  split at h
  · cases h
  · split at h
    · cases h
    · dsimp only at h
      split at h
      · cases h
      · rename_i hpos
        cases h
        omega

section admission

variable (dumps : Message → String) (encode : String → Nat) (scaled : Int → Int) (config : ModelConfig) (toolSchemaTokens : Int)
  (first : Message) (rest : List Message)

/-- **What admission does**: without a budget it fails; with one it returns what is left at the first place that fits, and fails
if none does. -/
theorem admit_cases :
    (∃ error, inputBudget scaled config toolSchemaTokens = .error error ∧
        admitAndTrimHistory dumps encode scaled config toolSchemaTokens (first :: rest) = .error error) ∨
      ∃ budget, inputBudget scaled config toolSchemaTokens = .ok budget ∧
        ((∃ error, admitAndTrimHistory dumps encode scaled config toolSchemaTokens (first :: rest) = .error error ∧
            ∀ k, Cut rest k → ¬ Fits (estimateMessageTokens dumps encode) budget first rest k) ∨
          ∃ k, Cut rest k ∧ (∀ j, j < k → Cut rest j → ¬ Fits (estimateMessageTokens dumps encode) budget first rest j) ∧
            Fits (estimateMessageTokens dumps encode) budget first rest k ∧
            admitAndTrimHistory dumps encode scaled config toolSchemaTokens (first :: rest) = .ok (first :: rest.drop k)) := by
  unfold admitAndTrimHistory inputBudget
  dsimp only
  cases hbudget : calculatePromptBudget scaled (capabilitiesFromConfig config) (capabilitiesFromConfig config).maxOutputTokens
      toolSchemaTokens with
  | error error => exact .inl ⟨error, rfl, rfl⟩
  | ok budget =>
    refine .inr ⟨budget, rfl, ?_⟩
    have hpos := calculatePromptBudget_pos hbudget
    generalize estimateMessageTokens dumps encode = cost
    obtain ⟨k, last, hlast, htrim, hle, hcut, hearlier, hfits⟩ := trimHistory_spec cost budget first rest
    simp only [bind, Except.bind]
    rw [htrim]
    by_cases hlatest : budget < latestUserTurnTokens cost (first :: rest)
    · refine .inl ⟨⟨.messageTooLarge, "The latest message is too large for this model's prompt budget"⟩, ?_, ?_⟩
      · have hno : ¬ budget ≤ 0 := by omega
        simp [admitLatestTurn, hno, hlatest]
      · intro j hj hfit
        have hkept : latestUserTurnTokens cost (first :: rest) ≤ _ := latest_le_total first hlast (hlast.cut_le hj)
        unfold Fits at hfit
        omega
    · have hadmits : admitLatestTurn (latestUserTurnTokens cost (first :: rest)) budget = .ok ⟨⟩ := by
        have hno : ¬ budget ≤ 0 := by omega
        simp [admitLatestTurn, hno, hlatest]
      rw [hadmits]
      by_cases hover : budget < total cost (first :: rest.drop k)
      · refine .inl ⟨⟨.promptTooLarge, "The protected system prompt and latest message exceed the prompt budget"⟩, ?_, ?_⟩
        · simp [hover, throw, throwThe, MonadExceptOf.throw]
        · -- the loop has gone to the newest user message
          have hend : k = last := by
            by_contra hne
            have hfit := hfits (by omega)
            unfold Fits at hfit
            omega
          intro j hj hfit
          rcases Nat.lt_or_ge j k with hlt | hge
          · exact hearlier j hlt hj hfit
          · have hjle := hlast.cut_le hj
            obtain rfl : j = k := by omega
            unfold Fits at hfit
            omega
      · refine .inr ⟨k, hcut, hearlier, ?_, ?_⟩
        · unfold Fits
          omega
        · simp [hover, pure, Except.pure]

/-- **Admission meets its contract exactly when no place to cut that is the first to fit is between a call and its result.** -/
theorem admission_iff :
    Contract dumps encode scaled config toolSchemaTokens first rest ↔
      KeepsPairs dumps encode scaled config toolSchemaTokens first rest := by
  unfold Contract KeepsPairs
  rcases admit_cases dumps encode scaled config toolSchemaTokens first rest with
    ⟨error, hbudget, hadmits⟩ | ⟨budget, hbudget, ⟨error, hadmits, hnone⟩ | ⟨k, hcut, hearlier, hfits, hadmits⟩⟩
  · rw [hadmits, hbudget]
    simp
  · rw [hadmits, hbudget]
    refine ⟨fun _ budget' heq i j k _ hk _ _ => ?_, fun _ => trivial⟩
    cases heq
    exact .inl (hnone k hk)
  · rw [hadmits, hbudget]
    constructor
    · rintro ⟨budget', k', heq, hok⟩ budget'' heq' i j l hpair hl hil hlj
      cases heq
      cases heq'
      by_contra hbad
      obtain ⟨hlfits, hlearlier⟩ : Fits (estimateMessageTokens dumps encode) budget first rest l ∧
          ∀ l', l' < l → Cut rest l' → ¬ Fits (estimateMessageTokens dumps encode) budget first rest l' := by
        refine ⟨?_, fun l' hlt hl' hfit => hbad (.inr ⟨l', hlt, hl', hfit⟩)⟩
        by_contra hno
        exact hbad (.inl hno)
      -- both are the first place that fits
      have hkl : k = l := by
        rcases Nat.lt_trichotomy k l with hlt | heq | hgt
        · exact absurd hfits (hlearlier k hlt hcut)
        · exact heq
        · exact absurd hlfits (hearlier l hgt hl)
      subst hkl
      have hj : j < rest.length := by
        obtain ⟨call, result, tid, -, -, hresult, -⟩ := hpair
        exact (List.getElem?_eq_some_iff.1 hresult).1
      have hk' : k' = k := by
        have hlength := congrArg List.length hok.suffix
        simp only [List.length_cons, List.length_drop] at hlength
        omega
      rw [hk'] at hok
      have hki := hok.pairs i j hpair hlj
      omega
    · intro hkeeps
      refine ⟨budget, k, rfl, rfl, ?_, hfits, ?_, hearlier, ?_⟩
      · intro i hi
        rcases hcut with rfl | ⟨newest, hnewest, hle, -⟩
        · exact Nat.zero_le _
        · rw [hi.unique hnewest]
          exact hle
      · intro hall
        cases k with
        | zero => rw [List.drop_zero]
        | succ k => exact absurd hall (hearlier 0 (Nat.succ_pos k) (.inl rfl))
      · intro i j hpair hkj
        by_contra hlt
        rcases hkeeps budget rfl i j k hpair hcut (by omega) hkj with hno | ⟨l, hlk, hl, hlfits⟩
        · exact hno hfits
        · exact hearlier l hlk hl hlfits

end admission

/-! ## a lost call -/

section lost

def lostTranscript : List Message :=
  [⟨.system, .plain "the earlier conversation", [], none⟩, ⟨.assistant, .plain "", [some "call_1"], none⟩,
    ⟨.tool, .plain "sunny", [], some "call_1"⟩, ⟨.user, .plain "and tomorrow?", [], none⟩]

def lostPrompt : Message := ⟨.system, .plain "you are an assistant", [], none⟩

def lostDumps (m : Message) : String :=
  match m.content with
  | .plain text => text ++ "."
  | .parts _ => "."

def lostEncode (text : String) : Nat :=
  if text = "." ∨ text = "the earlier conversation." then 620 else 20

/-- **The result of a call stays without the call.** -/
theorem admission_splits_pair :
    ¬ Contract lostDumps lostEncode (fun _ => 50) ⟨some 1000, some 100⟩ 0 lostPrompt lostTranscript := by
  intro hcontract
  have hrun : admitAndTrimHistory lostDumps lostEncode (fun _ => 50) ⟨some 1000, some 100⟩ 0 (lostPrompt :: lostTranscript) =
      .ok (lostPrompt :: lostTranscript.drop 2) := by
    rfl
  unfold Contract at hcontract
  rw [hrun] at hcontract
  obtain ⟨budget, k, -, hadmitted⟩ := hcontract
  have hk : k = 2 := by
    have hlength := congrArg List.length hadmitted.suffix
    simp [lostTranscript] at hlength
    omega
  have hpair : Pair lostTranscript 1 2 :=
    ⟨_, _, "call_1", by omega, rfl, rfl, by decide, by decide, fun l m hl hl' => by omega⟩
  have hle := hadmitted.pairs 1 2 hpair (by omega)
  omega

end lost

end Admission
end MyGpt
