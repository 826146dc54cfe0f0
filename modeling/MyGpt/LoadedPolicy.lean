import MyGpt.ToolPolicy
/-!
# LoadedPolicy — the exec policy as it is stored and as it is loaded

`load_active_exec_policy` drops the rules whose patterns are not concrete and reads every token as text.  A dropped rule does
not hand its commands to the default, as it is said to, but to the next rule that they meet; so a policy that forbids can be
loaded as one that allows (`loaded_never_weaker_iff`).
-/
namespace MyGpt
namespace Tools

variable (py : PyText)

/-! ## the stored list -/

/-- `argv[:len(pattern)] == pattern`, with the tokens as they are stored. -/
def matchesTokens : List Json → List String → Bool
  | [], _ => true
  | .str tok :: pattern, arg :: argv => tok == arg && matchesTokens pattern argv
  | _ :: _, _ => false

def RawRule.applies (r : RawRule) (argv : List String) : Bool := matchesTokens r.pattern argv

def RawRule.ruling (r : RawRule) : Decision := normalizeDecision py r.decision

/-- What `ExecPolicy.decide` makes of the stored rules. -/
def RawPolicy.decide (raw : RawPolicy) (argv : List String) : Decision :=
  ((raw.rules.find? (·.applies argv)).map (·.ruling py)).getD (normalizeDecision py raw.default)

def RawPolicy.ForbidsFirst (raw : RawPolicy) (argv : List String) : Prop :=
  ∃ before r after, raw.rules = before ++ r :: after ∧ r.applies argv = true ∧ r.ruling py = .forbidden ∧
    ∀ q ∈ before, q.applies argv = true → q.ruling py ≠ .allow

/-- **Loading never weakens**: what is stored in the file and does not allow a command does not allow it when it is loaded. -/
structure NeverWeaker (file : PolicyFile) (argv : List String) : Prop where
  forbidden : ∀ raw, loadRules file = some raw → raw.ForbidsFirst py argv →
    (loadActiveExecPolicy py file).decide argv ≠ .allow
  denied : ∀ raw, loadRules file = some raw → raw.decide py argv ≠ .allow →
    (loadActiveExecPolicy py file).decide argv ≠ .allow

/-! ## what a command meets -/

def RawRule.kept (r : RawRule) : Bool := validPattern (r.pattern.map py.str)

def RawRule.readsAs (r : RawRule) (argv : List String) : Bool := (r.pattern.map py.str).isPrefixOf argv

def RawPolicy.meets (raw : RawPolicy) (argv : List String) : Decision :=
  ((raw.rules.find? (fun r => r.kept py && r.readsAs py argv)).map (·.ruling py)).getD (normalizeDecision py raw.default)

/-- **How loading weakens a list**: a rule that is dropped and does not allow hands its command to one that does; or a rule
that allows gets a command only because its tokens, not all of them strings, are read as text. -/
inductive Exposes (default : Json) (argv : List String) : List RawRule → Prop
  | dropped {r : RawRule} {rest : List RawRule} : r.applies argv = true → r.kept py = false → r.ruling py ≠ .allow →
      RawPolicy.meets py ⟨rest, default⟩ argv = .allow → Exposes default argv (r :: rest)
  | retyped {r : RawRule} {rest : List RawRule} : r.applies argv = false → r.kept py = true → r.readsAs py argv = true →
      r.ruling py = .allow → RawPolicy.decide py ⟨rest, default⟩ argv ≠ .allow → Exposes default argv (r :: rest)
  | further {r : RawRule} {rest : List RawRule} : r.applies argv = false →
      (r.kept py = false ∨ r.readsAs py argv = false) → Exposes default argv rest → Exposes default argv (r :: rest)

variable {py}

theorem readsAs_of_applies {r : RawRule} {argv : List String} (h : r.applies argv = true) : r.readsAs py argv = true := by
  obtain ⟨pattern, decision⟩ := r
  unfold RawRule.applies at h
  unfold RawRule.readsAs
  dsimp only at h ⊢
  induction pattern generalizing argv with
  | nil => rfl
  | cons tok pattern ih =>
    cases tok with
    | str tok =>
      cases argv with
      | nil => cases h
      | cons arg argv =>
        rw [matchesTokens, Bool.and_eq_true, beq_iff_eq] at h
        rw [List.map_cons, List.isPrefixOf_cons_cons, ih h.2, Bool.and_true, beq_iff_eq]
        exact h.1
    | _ => cases argv <;> cases h

theorem meets_cons (r : RawRule) (rest : List RawRule) (default : Json) (argv : List String) :
    RawPolicy.meets py ⟨r :: rest, default⟩ argv =
      if r.kept py && r.readsAs py argv then r.ruling py else RawPolicy.meets py ⟨rest, default⟩ argv := by
  unfold RawPolicy.meets
  rw [List.find?_cons]
  split <;> simp_all

theorem decide_cons (r : RawRule) (rest : List RawRule) (default : Json) (argv : List String) :
    RawPolicy.decide py ⟨r :: rest, default⟩ argv =
      if r.applies argv then r.ruling py else RawPolicy.decide py ⟨rest, default⟩ argv := by
  unfold RawPolicy.decide
  rw [List.find?_cons]
  split <;> simp_all

theorem normalize_prompt : normalizeDecision py (.str "prompt") = .prompt := by
  have hnormalized : normalized "prompt" = "prompt" := by decide +kernel
  simp [normalizeDecision, Json.truthy, PyText.str, hnormalized]

theorem loadActive_decide {file : PolicyFile} {raw : RawPolicy} (h : loadRules file = some raw) (argv : List String) :
    (loadActiveExecPolicy py file).decide argv = raw.meets py argv := by
  have hrules : ∀ rules : List RawRule,
      (rules.filterMap (fun r => if validPattern (r.pattern.map py.str) then
        some (⟨r.pattern.map py.str, normalizeDecision py r.decision⟩ : PrefixRule) else none)).find?
          (fun rule => rule.pattern.isPrefixOf argv) =
        (rules.find? (fun r => r.kept py && r.readsAs py argv)).map
          (fun r => ⟨r.pattern.map py.str, normalizeDecision py r.decision⟩) := by
    intro rules
    induction rules with
    | nil => rfl
    | cons r rules ih =>
      rw [List.filterMap_cons, List.find?_cons]
      by_cases hkept : validPattern (r.pattern.map py.str) = true
      · rw [if_pos hkept]
        dsimp only
        rw [List.find?_cons]
        have hsame : (r.kept py && r.readsAs py argv) = (r.pattern.map py.str).isPrefixOf argv := by
          unfold RawRule.kept RawRule.readsAs
          rw [hkept, Bool.true_and]
        rw [hsame]
        cases (r.pattern.map py.str).isPrefixOf argv with
        | true => rfl
        | false => exact ih
      · have hdropped : (r.kept py && r.readsAs py argv) = false := by
          unfold RawRule.kept
          simp [hkept]
        rw [if_neg hkept, hdropped]
        exact ih
  have hloaded : ∀ raw : RawPolicy, ExecPolicy.decide
      { rules := raw.rules.filterMap (fun r =>
          let pattern := r.pattern.map py.str
          if validPattern pattern then some ⟨pattern, normalizeDecision py r.decision⟩ else none)
        default := normalizeDecision py raw.default } argv = raw.meets py argv := by
    intro raw
    unfold ExecPolicy.decide RawPolicy.meets
    dsimp only
    rw [hrules, Option.map_map]
    rfl
  unfold loadActiveExecPolicy
  cases file with
  | unset =>
    cases h
    unfold RawPolicy.meets
    dsimp only
    rw [normalize_prompt]
    rfl
  | missing | corrupt | json data =>
    dsimp only
    rw [h]
    exact hloaded raw

theorem weaker_iff (default : Json) (argv : List String) (rules : List RawRule) :
    (RawPolicy.decide py ⟨rules, default⟩ argv ≠ .allow → RawPolicy.meets py ⟨rules, default⟩ argv ≠ .allow) ↔
      ¬ Exposes py default argv rules := by
  induction rules with
  | nil => exact ⟨fun _ => nofun, fun _ h => h⟩
  | cons r rest ih =>
    rw [decide_cons, meets_cons]
    by_cases happlies : r.applies argv = true
    · rw [if_pos happlies, readsAs_of_applies happlies, Bool.and_true]
      by_cases hkept : r.kept py = true
      · rw [if_pos hkept]
        refine ⟨fun _ hexposed => ?_, fun _ h => h⟩
        cases hexposed with
        | dropped _ hdropped => exact absurd hkept (by simp [hdropped])
        | retyped hnot | further hnot => exact absurd happlies (by simp [hnot])
      · rw [if_neg hkept]
        have hdropped : r.kept py = false := by simpa using hkept
        constructor
        · intro h hexposed
          cases hexposed with
          | dropped _ _ hruling hmeets => exact h hruling hmeets
          | retyped hnot | further hnot => exact absurd happlies (by simp [hnot])
        · exact fun h hruling hmeets => h (.dropped happlies hdropped hruling hmeets)
    · have hnot : r.applies argv = false := by simpa using happlies
      rw [if_neg happlies]
      by_cases hreads : (r.kept py && r.readsAs py argv) = true
      · rw [if_pos hreads]
        obtain ⟨hkept, hreads⟩ := Bool.and_eq_true_iff.1 hreads
        constructor
        · intro h hexposed
          cases hexposed with
          | dropped happlies' => exact happlies happlies'
          | retyped _ _ _ hruling hdecide => exact h hdecide hruling
          | further _ hskipped => rcases hskipped with h' | h' <;> simp [h'] at hkept hreads
        · exact fun h hdecide hruling => h (.retyped hnot hkept hreads hruling hdecide)
      · have hskipped : r.kept py = false ∨ r.readsAs py argv = false := Bool.and_eq_false_iff.1 (Bool.eq_false_iff.2 hreads)
        rw [if_neg hreads, ih]
        refine not_congr ⟨fun h => .further hnot hskipped h, fun hexposed => ?_⟩
        cases hexposed with
        | dropped happlies' => exact absurd happlies' happlies
        | retyped _ hkept hreads' => rcases hskipped with h' | h' <;> simp [h'] at hkept hreads'
        | further _ _ hrest => exact hrest

theorem decide_of_forbidsFirst {raw : RawPolicy} {argv : List String} (h : raw.ForbidsFirst py argv) :
    raw.decide py argv ≠ .allow := by
  obtain ⟨rules, default⟩ := raw
  obtain ⟨before, r, after, hsplit, happlies, hforbidden, hbefore⟩ := h
  dsimp only at hsplit
  subst hsplit
  induction before with
  | nil =>
    rw [List.nil_append, decide_cons, if_pos happlies, hforbidden]
    exact nofun
  | cons q before ih =>
    rw [List.cons_append, decide_cons]
    split
    · rename_i hq
      exact hbefore q List.mem_cons_self hq
    · exact ih (fun q' hq' => hbefore q' (List.mem_cons_of_mem q hq'))

/-- **When loading does not weaken a policy**: nothing that its stored rules deny a command is exposed. -/
theorem loaded_never_weaker_iff (file : PolicyFile) (argv : List String) :
    NeverWeaker py file argv ↔ ∀ raw, loadRules file = some raw → ¬ Exposes py raw.default argv raw.rules := by
  constructor
  · intro h raw hraw
    rw [← weaker_iff]
    exact fun hdecide => loadActive_decide hraw argv ▸ h.denied raw hraw hdecide
  · intro h
    have hdenied : ∀ raw, loadRules file = some raw → raw.decide py argv ≠ .allow →
        (loadActiveExecPolicy py file).decide argv ≠ .allow := by
      intro raw hraw
      rw [loadActive_decide hraw]
      exact (weaker_iff raw.default argv raw.rules).2 (h raw hraw)
    exact ⟨fun raw hraw hforbids => hdenied raw hraw (decide_of_forbidsFirst hforbids), hdenied⟩

/-! ## a rule that is dropped -/

/-- `curl` is allowed, but not for one address: a pattern with `://` in it. -/
def curlPolicy : PolicyFile :=
  .json (.obj [("rules", .arr [
    .obj [("pattern", .arr [.str "curl", .str "http://10.0.0.1"]), ("decision", .str "forbidden")],
    .obj [("pattern", .arr [.str "curl"]), ("decision", .str "allow")]])])

/-- **A forbidden command is allowed** because its rule is not concrete. -/
theorem forbidden_curl_allowed : ¬ ∀ (py : PyText) (file : PolicyFile) (argv : List String), NeverWeaker py file argv := by
  intro h
  have hweaker := h ⟨fun _ => "", fun _ => ""⟩ curlPolicy ["curl", "http://10.0.0.1"]
  refine absurd (?_ : _ = Decision.allow) (hweaker.denied _ rfl ?_)
  · decide +kernel
  · decide +kernel

end Tools
end MyGpt
