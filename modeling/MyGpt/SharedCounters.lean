import MyGpt.Lib.Allotment
import MyGpt.Lib.Binary
import MyGpt.Lib.Trace
import Mathlib.Data.List.Dedup
import Mathlib.Data.List.Infix
/-!
# SharedCounters — the usage of one model client among the stages that share it

`LLMUsageCoordinator` on one client, under stages that begin, run and claim in any order while the counters of the client
grow.  A claim is given what its snapshot is above the last one, by name; a name that a snapshot leaves out is forgotten, and
all of it is claimed again when it is back (`claimed_again`).  Where no claim leaves out a counter, and the differences are
exact, everything is allotted once (`allotted_iff`).
-/
namespace MyGpt
namespace LlmUsage

/-! ## the meter -/

structure Counts where
  entries : List (String × Number) := []
  names : (entries.map Prod.fst).Nodup := by exact .nil

namespace Counts

variable (c : Counts) (name : String)

def get? : Option Number := c.entries.lookup name

/-- `.get(name, 0)` -/
def get : Number := (c.get? name).getD 0

end Counts

def grown (before : Counts) : String × Number → Option (String × Number)
  | (name, value) => if 0 < value - before.get name then some (name, value - before.get name) else none

theorem names_filterMap (before : Counts) : ∀ entries : List (String × Number),
    ((entries.filterMap (grown before)).map Prod.fst).Sublist (entries.map Prod.fst)
  | [] => .slnil
  | (name, value) :: entries => by
    have ih := names_filterMap before entries
    rw [List.filterMap_cons]
    by_cases hgrown : 0 < value - before.get name
    · simp only [grown, hgrown, if_true]
      exact ih.cons_cons name
    · simp only [grown, hgrown, if_false]
      exact ih.cons name

def delta (current before : Counts) : Counts where
  entries := current.entries.filterMap (grown before)
  names := current.names.sublist (names_filterMap before current.entries)

/-- `_LLMUsageMeter`; the lock is the run's. -/
structure Meter where
  initialized : Bool := false
  lastClaimed : Counts := {}

namespace Meter

variable (m : Meter)

/-- `begin` behind its snapshot. -/
def begin : Option Counts → Bool × Meter
  | none => (false, m)
  | some current => if m.initialized then (true, m) else (true, { initialized := true, lastClaimed := current })

/-- `claim` behind its snapshot. -/
def claim : Option Counts → Option Counts × Meter
  | none => (none, m)
  | some current =>
    if m.initialized then
      let delta := delta current m.lastClaimed
      (if delta.entries = [] then none else some delta, { m with lastClaimed := current })
    else (none, m)

end Meter

/-! ## the stages -/

structure Counters where
  value : String → Number
  nonneg : ∀ name, 0 ≤ (value name).worth

namespace Counters

/-- Some counters as they are now; the others `aggregate_usage` has found no number for. -/
def shown (counters : Counters) (names : List String) : Counts where
  entries := names.dedup.map (fun name => (name, counters.value name))
  names := by
    rw [List.map_map]
    exact (List.map_id _).symm ▸ names.nodup_dedup

def grow (counters : Counters) (name : String) (value : Number) (h : (counters.value name).worth ≤ value.worth) : Counters where
  value := Function.update counters.value name value
  nonneg := by
    intro name'
    rw [Function.update_apply]
    split
    · exact (counters.nonneg name).trans h
    · exact counters.nonneg name'

end Counters

inductive Call
  | begin | claim
  deriving DecidableEq

/-- Where `_run_stage` is. -/
inductive Phase
  | ready
  | waiting (call : Call)
  | reading (call : Call)
  | resuming (call : Call) (current : Option Counts)
  | executing (metered : Bool)
  | ended (llmUsage : Option Counts)

/-- A call of `claim` on a meter that has its baseline, and on a summary that could be read. -/
structure Claim where
  before : Counts
  current : Counts
  returned : Option Counts

/-- The stages at one client; `baseline` and `claims` are what the calls have done so far. -/
structure Sharing (S : Type) where
  counters : Counters
  meter : Meter := {}
  holder : Option S := none
  phases : S → Phase := fun _ => .ready
  baseline : Option Counts := none
  claims : List Claim := []

inductive Action (S : Type)
  | grow (name : String) (value : Number)
  | start (stage : S)
  | acquire (stage : S)
  | read (stage : S) (names : Option (List String))
  | resume (stage : S)
  | finish (stage : S)
  | cancel (stage : S)

section
variable {S : Type} [DecidableEq S]

def Sharing.goto (s : Sharing S) (stage : S) (phase : Phase) : Sharing S :=
  { s with phases := Function.update s.phases stage phase }

def Sharing.conclude (s : Sharing S) (stage : S) (current : Option Counts) : Call → Sharing S
  | .begin =>
    let (metered, meter) := s.meter.begin current
    { s.goto stage (.executing metered) with
      meter := meter
      holder := none
      baseline := if s.meter.initialized then s.baseline else current }
  | .claim =>
    let (llmUsage, meter) := s.meter.claim current
    { s.goto stage (.ended llmUsage) with
      meter := meter
      holder := none
      claims := s.claims ++ if s.meter.initialized then
          (current.map (fun current => ⟨s.meter.lastClaimed, current, llmUsage⟩)).toList
        else [] }

def step (s : Sharing S) : Action S → Option (Sharing S)
  | .grow name value =>
    if h : (s.counters.value name).worth ≤ value.worth then some { s with counters := s.counters.grow name value h } else none
  | .start stage =>
    match s.phases stage with
    | .ready => some (s.goto stage (.waiting .begin))
    | _ => none
  | .acquire stage =>
    match s.phases stage, s.holder with
    | .waiting call, none => some { s.goto stage (.reading call) with holder := some stage }
    | _, _ => none
  | .read stage names =>
    match s.phases stage with
    | .reading call => some (s.goto stage (.resuming call (names.map s.counters.shown)))
    | _ => none
  | .resume stage =>
    match s.phases stage with
    | .resuming call current => some (s.conclude stage current call)
    | _ => none
  | .finish stage =>
    match s.phases stage with
    | .executing metered => some (s.goto stage (if metered then .waiting .claim else .ended none))
    | _ => none
  | .cancel stage =>
    match s.phases stage with
    | .waiting _ => some (s.goto stage (.ended none))
    | .reading _ | .resuming _ _ => some { s.goto stage (.ended none) with holder := none }
    | _ => none

end

/-! ## what the claims owe -/

def Claim.part (name : String) (c : Claim) : Allotment.Part Int where
  start := (c.before.get name).worth
  amount := (c.returned.map (fun delta => (delta.get name).worth)).getD 0

def latest (baseline : Counts) (claims : List Claim) : Counts := (claims.getLast?.map (·.current)).getD baseline

/-- **What has grown since the baseline is claimed exactly once**, counter by counter. -/
def Allotted {S : Type} (s : Sharing S) : Prop :=
  ∀ baseline, s.baseline = some baseline → ∀ name,
    Allotment.Exactly (baseline.get name).worth ((latest baseline s.claims).get name).worth (s.claims.map (Claim.part name))

def Kept (before current : Counts) (name : String) : Prop :=
  match current.get? name with
  | none => (before.get name).worth = 0
  | some value => (value - before.get name).worth = value.worth - (before.get name).worth

def Complete {S : Type} (s : Sharing S) : Action S → Prop
  | .resume stage => ∀ current, s.phases stage = .resuming .claim (some current) → s.meter.initialized = true →
      ∀ name, Kept s.meter.lastClaimed current name
  | _ => True

/-! ## what a claim is given -/

theorem lookup_grown (before : Counts) (name : String) : ∀ entries : List (String × Number), (entries.map Prod.fst).Nodup →
    (entries.filterMap (grown before)).lookup name =
      (entries.lookup name).bind (fun value => (grown before (name, value)).map Prod.snd)
  | [], _ => rfl
  | (name', value) :: entries, hnames => by
    obtain ⟨hnew, hnames⟩ := List.nodup_cons.1 hnames
    have ih := lookup_grown before name entries hnames
    rw [List.filterMap_cons, List.lookup_cons]
    by_cases hname : name = name'
    · subst hname
      simp only [beq_self_eq_true, Option.bind_some]
      by_cases hgrown : 0 < value - before.get name
      · simp only [grown, hgrown, if_true, List.lookup_cons_self, Option.map_some]
      · have hnone : entries.lookup name = none := by
          rw [List.lookup_eq_none_iff]
          intro entry hentry
          exact bne_iff_ne.2 (fun h => hnew (List.mem_map.2 ⟨entry, hentry, h.symm⟩))
        simp only [grown, hgrown, if_false, Option.map_none]
        rw [ih, hnone]
        rfl
    · have hne : (name == name') = false := beq_false_of_ne hname
      rw [hne]
      by_cases hgrown : 0 < value - before.get name'
      · simp only [grown, hgrown, if_true]
        rw [List.lookup_cons, hne]
        exact ih
      · simp only [grown, hgrown, if_false]
        exact ih

def given (current before : Counts) (name : String) : Int :=
  match current.get? name with
  | none => 0
  | some value => if 0 < value - before.get name then (value - before.get name).worth else 0

theorem delta_get (current before : Counts) (name : String) : ((delta current before).get name).worth = given current before name := by
  have hlookup : (delta current before).get? name =
      (current.get? name).bind (fun value => (grown before (name, value)).map Prod.snd) :=
    lookup_grown before name current.entries current.names
  unfold Counts.get given
  rw [hlookup]
  cases current.get? name with
  | none => exact Number.worth_zero
  | some value =>
    by_cases hgrown : 0 < value - before.get name
    · simp only [Option.bind_some, grown, hgrown, if_true, Option.map_some, Option.getD_some]
    · simp only [Option.bind_some, grown, hgrown, if_false, Option.map_none, Option.getD_none]
      exact Number.worth_zero

theorem given_nonneg (current before : Counts) (name : String) : 0 ≤ given current before name := by
  unfold given
  split
  · exact le_refl 0
  · split
    · rename_i hgrown
      have hpos : (0 : Number).worth < _ := hgrown
      rw [Number.worth_zero] at hpos
      exact hpos.le
    · exact le_refl 0

theorem part_claim {m : Meter} (hm : m.initialized = true) (current : Counts) (name : String) :
    Claim.part name ⟨m.lastClaimed, current, (m.claim (some current)).1⟩ =
      ⟨(m.lastClaimed.get name).worth, given current m.lastClaimed name⟩ := by
  simp only [Meter.claim, hm, if_true]
  rw [← delta_get]
  split
  · rename_i hempty
    have hnone : (delta current m.lastClaimed).get name = 0 := by
      unfold Counts.get Counts.get?
      rw [hempty]
      rfl
    rw [hnone, Number.worth_zero]
    rfl
  · rfl

theorem given_eq_iff {current before : Counts} {name : String}
    (hle : ∀ value, current.get? name = some value → (before.get name).worth ≤ value.worth) :
    given current before name = (current.get name).worth - (before.get name).worth ↔ Kept before current name := by
  unfold given Kept
  cases hcurrent : current.get? name with
  | none =>
    have hget : current.get name = 0 := by
      unfold Counts.get
      rw [hcurrent]
      rfl
    rw [hget, Number.worth_zero]
    dsimp only
    omega
  | some value =>
    have hget : current.get name = value := by
      unfold Counts.get
      rw [hcurrent]
      rfl
    have hvalue := hle value hcurrent
    rw [hget]
    dsimp only
    split
    · exact Iff.rfl
    · rename_i hgrown
      have hnot : ¬ (0 : Number).worth < (value - before.get name).worth := hgrown
      rw [Number.worth_zero] at hnot
      constructor
      · intro h
        rw [Number.worth_sub_of_eq (by omega), h]
      · intro h
        omega

theorem kept_of_int {before current : Counts} {name : String} {m n : Int} (hbefore : before.get name = .int m)
    (hcurrent : current.get? name = some (.int n)) : Kept before current name := by
  unfold Kept
  rw [hcurrent, hbefore]
  exact Number.worth_int_sub n m

/-! ## the lock and the counters -/

def Phase.locked : Phase → Bool
  | .reading _ | .resuming _ _ => true
  | _ => false

structure Inv {S : Type} (s : Sharing S) : Prop where
  held : ∀ stage, (s.phases stage).locked = true → s.holder = some stage
  known : ∀ name, 0 ≤ (s.meter.lastClaimed.get name).worth ∧
    (s.meter.lastClaimed.get name).worth ≤ (s.counters.value name).worth
  fresh : ∀ stage call current, s.phases stage = .resuming call (some current) → ∀ name value, current.get? name = some value →
    (s.meter.lastClaimed.get name).worth ≤ value.worth ∧ value.worth ≤ (s.counters.value name).worth
  begun : s.meter.initialized = s.baseline.isSome
  unbegun : s.baseline = none → s.claims = []
  last : ∀ baseline, s.baseline = some baseline → s.meter.lastClaimed = latest baseline s.claims
  given : ∀ c ∈ s.claims, ∀ name, 0 ≤ (c.part name).amount

theorem inv_start {S : Type} (counters : Counters) : Inv ({ counters := counters } : Sharing S) where
  held := nofun
  known name := by
    have hget : ({} : Counts).get name = 0 := rfl
    rw [hget, Number.worth_zero]
    exact ⟨le_refl 0, counters.nonneg name⟩
  fresh := nofun
  begun := rfl
  unbegun _ := rfl
  last := nofun
  given := nofun

theorem shown_get? {counters : Counters} {names : List String} {name : String} {value : Number}
    (h : (counters.shown names).get? name = some value) : value = counters.value name := by
  obtain ⟨before, after, hentries, -⟩ := List.lookup_eq_some_iff.1 h
  have hmem : (name, value) ∈ (counters.shown names).entries := by
    rw [hentries]
    exact List.mem_append_right _ List.mem_cons_self
  obtain ⟨name', -, he⟩ := List.mem_map.1 hmem
  obtain ⟨rfl, rfl⟩ := Prod.mk.inj he
  rfl

section
variable {S : Type} [DecidableEq S] {s s' : Sharing S} {stage : S}

theorem goto_phases (s : Sharing S) (stage stage' : S) (phase : Phase) :
    (s.goto stage phase).phases stage' = if stage' = stage then phase else s.phases stage' :=
  Function.update_apply _ _ _ _

theorem Inv.goto (h : Inv s) {phase : Phase} (hphase : phase.locked = false) : Inv (s.goto stage phase) := by
  refine { h with held := fun stage' hlocked => ?_, fresh := fun stage' call current hresuming => ?_ }
  · rw [goto_phases] at hlocked
    split at hlocked
    · rw [hphase] at hlocked
      cases hlocked
    · exact h.held stage' hlocked
  · rw [goto_phases] at hresuming
    split at hresuming
    · subst hresuming
      cases hphase
    · exact h.fresh stage' call current hresuming

theorem Inv.release (h : Inv s) (hstage : (s.phases stage).locked = true) {phase : Phase} (hphase : phase.locked = false) :
    Inv { s.goto stage phase with holder := none } := by
  refine { h.goto hphase with held := fun stage' hlocked => ?_ }
  rw [goto_phases] at hlocked
  split at hlocked
  · rw [hphase] at hlocked
    cases hlocked
  · rename_i hne
    have hsame := (h.held stage' hlocked).symm.trans (h.held stage hstage)
    exact absurd (Option.some.inj hsame) hne

omit [DecidableEq S] in
theorem Inv.set (h : Inv s) (hfree : s.holder = none) {meter : Meter} {baseline : Option Counts} {claims : List Claim}
    (hknown : ∀ name value, meter.lastClaimed.get? name = some value →
      0 ≤ value.worth ∧ value.worth ≤ (s.counters.value name).worth)
    (hbegun : meter.initialized = baseline.isSome) (hunbegun : baseline = none → claims = [])
    (hlast : ∀ b, baseline = some b → meter.lastClaimed = latest b claims)
    (hgiven : ∀ c ∈ claims, ∀ name, 0 ≤ (c.part name).amount) :
    Inv { s with meter := meter, baseline := baseline, claims := claims } where
  held := h.held
  known name := by
    unfold Counts.get
    cases hvalue : meter.lastClaimed.get? name with
    | none =>
      rw [Option.getD_none, Number.worth_zero]
      exact ⟨le_refl 0, s.counters.nonneg name⟩
    | some value => exact hknown name value hvalue
  fresh stage call current hresuming := by
    have hheld := h.held stage (by rw [hresuming]; rfl)
    rw [hfree] at hheld
    cases hheld
  begun := hbegun
  unbegun := hunbegun
  last := hlast
  given := hgiven

omit [DecidableEq S] in
theorem Inv.snapshot (h : Inv s) {call : Call} {current : Counts} (hphase : s.phases stage = .resuming call (some current))
    (name : String) (value : Number) (hvalue : current.get? name = some value) :
    0 ≤ value.worth ∧ value.worth ≤ (s.counters.value name).worth := by
  have hfresh := h.fresh stage call current hphase name value hvalue
  exact ⟨(h.known name).1.trans hfresh.1, hfresh.2⟩

omit [DecidableEq S] in
theorem Inv.no_baseline (h : Inv s) (hinit : s.meter.initialized = false) : s.baseline = none := by
  have hbegun := h.begun
  rw [hinit] at hbegun
  exact Option.isSome_eq_false_iff.1 hbegun.symm |> Option.isNone_iff_eq_none.1

theorem begin_begun (h : Inv s) {current : Option Counts} (hbegun : ∀ c, current = some c → s.meter.initialized = true) :
    s.conclude stage current .begin = { s.goto stage (.executing current.isSome) with holder := none } := by
  cases current with
  | none =>
    cases hinit : s.meter.initialized with
    | true => simp [Sharing.conclude, Meter.begin, hinit, Sharing.goto]
    | false => simp [Sharing.conclude, Meter.begin, hinit, Sharing.goto, h.no_baseline hinit]
  | some current => simp [Sharing.conclude, Meter.begin, hbegun current rfl, Sharing.goto]

theorem begin_first (hinit : s.meter.initialized = false) (current : Counts) :
    s.conclude stage (some current) .begin =
      { s.goto stage (.executing true) with
        holder := none
        meter := { initialized := true, lastClaimed := current }
        baseline := some current } := by
  simp [Sharing.conclude, Meter.begin, hinit]

theorem Inv.begin (h : Inv s) {current : Option Counts} (hphase : s.phases stage = .resuming .begin current) :
    Inv (s.conclude stage current .begin) := by
  have hlocked : (s.phases stage).locked = true := by rw [hphase]; rfl
  by_cases hbegun : ∀ c, current = some c → s.meter.initialized = true
  · rw [begin_begun h hbegun]
    exact h.release hlocked rfl
  · push Not at hbegun
    obtain ⟨current, rfl, hinit⟩ := hbegun
    have hinit : s.meter.initialized = false := by simpa using hinit
    have hclaims := h.unbegun (h.no_baseline hinit)
    rw [begin_first hinit]
    refine (h.release hlocked rfl).set rfl (h.snapshot hphase) rfl nofun (fun b hb => ?_) h.given
    cases hb
    change current = latest current s.claims
    rw [hclaims]
    rfl

theorem claim_unclaimed {current : Option Counts} (hnone : ∀ c, current = some c → s.meter.initialized = false) :
    s.conclude stage current .claim = { s.goto stage (.ended none) with holder := none } := by
  cases current with
  | none => cases hinit : s.meter.initialized <;> simp [Sharing.conclude, Meter.claim, hinit, Sharing.goto]
  | some current => simp [Sharing.conclude, Meter.claim, hnone current rfl, Sharing.goto]

theorem claim_claimed (hinit : s.meter.initialized = true) (current : Counts) :
    s.conclude stage (some current) .claim =
      { s.goto stage (.ended (s.meter.claim (some current)).1) with
        holder := none
        meter := { s.meter with lastClaimed := current }
        claims := s.claims ++ [⟨s.meter.lastClaimed, current, (s.meter.claim (some current)).1⟩] } := by
  simp only [Sharing.conclude, Meter.claim, hinit, if_true]
  rfl

theorem Inv.claim (h : Inv s) {current : Option Counts} (hphase : s.phases stage = .resuming .claim current) :
    Inv (s.conclude stage current .claim) := by
  have hlocked : (s.phases stage).locked = true := by rw [hphase]; rfl
  by_cases hnone : ∀ c, current = some c → s.meter.initialized = false
  · rw [claim_unclaimed hnone]
    exact h.release hlocked rfl
  · push Not at hnone
    obtain ⟨current, rfl, hinit⟩ := hnone
    have hinit : s.meter.initialized = true := by simpa using hinit
    rw [claim_claimed hinit]
    refine (h.release hlocked rfl).set rfl (h.snapshot hphase) h.begun (fun hb => ?_) (fun b hb => ?_) (fun c hc name => ?_)
    · have hbegun := h.begun
      change s.baseline = none at hb
      rw [hinit, hb] at hbegun
      cases hbegun
    · unfold latest
      rw [List.getLast?_concat]
      rfl
    · rcases List.mem_append.1 hc with hc | hc
      · exact h.given c hc name
      · obtain rfl := List.mem_singleton.1 hc
        rw [part_claim hinit]
        exact given_nonneg current s.meter.lastClaimed name

omit [DecidableEq S] in
theorem Inv.grow (h : Inv s) {name : String} {value : Number} (hle : (s.counters.value name).worth ≤ value.worth) :
    Inv { s with counters := s.counters.grow name value hle } := by
  have hgrow : ∀ name', (s.counters.value name').worth ≤ ((s.counters.grow name value hle).value name').worth := by
    intro name'
    show _ ≤ (Function.update s.counters.value name value name').worth
    rw [Function.update_apply]
    split
    · rename_i heq
      rw [heq]
      exact hle
    · exact le_refl _
  refine { h with known := fun name' => ?_, fresh := fun stage call current hphase name' value' hvalue => ?_ }
  · exact ⟨(h.known name').1, (h.known name').2.trans (hgrow name')⟩
  · have hfresh := h.fresh stage call current hphase name' value' hvalue
    exact ⟨hfresh.1, hfresh.2.trans (hgrow name')⟩

theorem Inv.acquire (h : Inv s) (hfree : s.holder = none) (call : Call) :
    Inv { s.goto stage (.reading call) with holder := some stage } := by
  refine { h with held := fun stage' hlocked => ?_, fresh := fun stage' call' current hresuming => ?_ }
  · change ((s.goto stage (.reading call)).phases stage').locked = true at hlocked
    rw [goto_phases] at hlocked
    split at hlocked
    · rename_i heq
      rw [heq]
    · have hheld := h.held stage' hlocked
      rw [hfree] at hheld
      cases hheld
  · change (s.goto stage (.reading call)).phases stage' = _ at hresuming
    rw [goto_phases] at hresuming
    split at hresuming
    · cases hresuming
    · exact h.fresh stage' call' current hresuming

theorem Inv.read (h : Inv s) {call : Call} (hphase : s.phases stage = .reading call) (names : Option (List String)) :
    Inv (s.goto stage (.resuming call (names.map s.counters.shown))) := by
  refine { h with held := fun stage' hlocked => ?_, fresh := fun stage' call' current hresuming => ?_ }
  · rw [goto_phases] at hlocked
    split at hlocked
    · rename_i heq
      rw [heq]
      exact h.held stage (by rw [hphase]; rfl)
    · exact h.held stage' hlocked
  · rw [goto_phases] at hresuming
    split at hresuming
    · intro name value hvalue
      cases names with
      | none => cases hresuming
      | some names =>
        cases hresuming
        rw [shown_get? hvalue]
        exact ⟨(h.known name).2, le_refl _⟩
    · exact h.fresh stage' call' current hresuming

theorem inv_step (h : Inv s) {a : Action S} (hstep : step s a = some s') : Inv s' := by
  cases a with
  | grow name value =>
    simp only [step] at hstep
    split at hstep
    · rename_i hle
      cases hstep
      exact h.grow hle
    · cases hstep
  | start stage =>
    simp only [step] at hstep
    split at hstep
    · cases hstep
      exact h.goto rfl
    · cases hstep
  | acquire stage =>
    simp only [step] at hstep
    split at hstep
    · rename_i call _ hfree
      cases hstep
      exact h.acquire hfree call
    · cases hstep
  | read stage names =>
    simp only [step] at hstep
    split at hstep
    · rename_i call hphase
      cases hstep
      exact h.read hphase names
    · cases hstep
  | resume stage =>
    simp only [step] at hstep
    split at hstep
    · rename_i call current hphase
      cases hstep
      cases call with
      | begin => exact h.begin hphase
      | claim => exact h.claim hphase
    · cases hstep
  | finish stage =>
    simp only [step] at hstep
    split at hstep
    · rename_i metered _
      cases hstep
      cases metered <;> exact h.goto rfl
    · cases hstep
  | cancel stage =>
    simp only [step] at hstep
    split at hstep
    · cases hstep
      exact h.goto rfl
    · rename_i call hphase
      cases hstep
      exact h.release (by rw [hphase]; rfl) rfl
    · rename_i call current hphase
      cases hstep
      exact h.release (by rw [hphase]; rfl) rfl
    · cases hstep

/-! ## what is allotted -/

omit [DecidableEq S] in
theorem allotted_congr {t : Sharing S} (hbaseline : t.baseline = s.baseline) (hclaims : t.claims = s.claims) :
    Allotted t ↔ Allotted s := by
  unfold Allotted
  rw [hbaseline, hclaims]

theorem allotted_claim (h : Inv s) (hs : Allotted s) {current : Counts} (hphase : s.phases stage = .resuming .claim (some current))
    (hinit : s.meter.initialized = true) :
    Allotted (s.conclude stage (some current) .claim) ↔ ∀ name, Kept s.meter.lastClaimed current name := by
  obtain ⟨baseline, hbaseline⟩ := Option.isSome_iff_exists.1 (h.begun.symm.trans hinit)
  have hlast := h.last baseline hbaseline
  have hname : ∀ name, Allotment.Exactly (baseline.get name).worth (current.get name).worth
      (s.claims.map (Claim.part name) ++ [⟨(s.meter.lastClaimed.get name).worth, given current s.meter.lastClaimed name⟩]) ↔
      Kept s.meter.lastClaimed current name := by
    intro name
    have hexactly := hs baseline hbaseline name
    rw [← hlast] at hexactly
    have hbase := hexactly.base_le (fun p hp => by
      obtain ⟨c, hc, rfl⟩ := List.mem_map.1 hp
      exact h.given c hc name)
    rw [hexactly.concat_iff hbase (given_nonneg current s.meter.lastClaimed name)]
    exact given_eq_iff (fun value hvalue => (h.fresh stage .claim current hphase name value hvalue).1)
  have hparts : ∀ name, (s.claims ++ [Claim.mk s.meter.lastClaimed current (s.meter.claim (some current)).1]).map (Claim.part name) =
      s.claims.map (Claim.part name) ++ [⟨(s.meter.lastClaimed.get name).worth, given current s.meter.lastClaimed name⟩] := by
    intro name
    rw [List.map_append, List.map_singleton, part_claim hinit]
  rw [claim_claimed hinit]
  constructor
  · intro hallotted name
    have hexactly := hallotted baseline hbaseline name
    rw [hparts, latest, List.getLast?_concat] at hexactly
    exact (hname name).1 hexactly
  · intro hkept b hb name
    obtain rfl : baseline = b := Option.some.inj (hbaseline.symm.trans hb)
    rw [hparts, latest, List.getLast?_concat]
    exact (hname name).2 (hkept name)

theorem allotted_begin (h : Inv s) (hs : Allotted s) {current : Option Counts} :
    Allotted (s.conclude stage current .begin) := by
  by_cases hbegun : ∀ c, current = some c → s.meter.initialized = true
  · rw [begin_begun h hbegun]
    exact (allotted_congr rfl rfl).2 hs
  · push Not at hbegun
    obtain ⟨current, rfl, hinit⟩ := hbegun
    have hinit : s.meter.initialized = false := by simpa using hinit
    rw [begin_first hinit]
    intro baseline hbaseline name
    cases hbaseline
    change Allotment.Exactly _ ((latest current s.claims).get name).worth (s.claims.map _)
    rw [h.unbegun (h.no_baseline hinit)]
    exact Allotment.exactly_nil _

theorem allotted_step (h : Inv s) (hs : Allotted s) {a : Action S} (hstep : step s a = some s') :
    Allotted s' ↔ Complete s a := by
  cases a with
  | resume stage =>
    simp only [step] at hstep
    split at hstep
    · rename_i call current hphase
      cases hstep
      cases call with
      | begin =>
        refine ⟨fun _ c hc => ?_, fun _ => allotted_begin h hs⟩
        rw [hphase] at hc
        cases hc
      | claim =>
        by_cases hnone : ∀ c, current = some c → s.meter.initialized = false
        · rw [claim_unclaimed hnone]
          refine ⟨fun _ c hc hinit => ?_, fun _ => (allotted_congr rfl rfl).2 hs⟩
          rw [hphase] at hc
          cases hc
          rw [hnone c rfl] at hinit
          cases hinit
        · push Not at hnone
          obtain ⟨current, rfl, hinit⟩ := hnone
          have hinit : s.meter.initialized = true := by simpa using hinit
          rw [allotted_claim h hs hphase hinit]
          refine ⟨fun hkept c hc _ => ?_, fun hcomplete => hcomplete current hphase hinit⟩
          rw [hphase] at hc
          cases hc
          exact hkept
    · cases hstep
  | grow | start | acquire | read | finish | cancel =>
    refine ⟨fun _ => trivial, fun _ => ?_⟩
    simp only [step] at hstep
    split at hstep <;> cases hstep <;> exact (allotted_congr rfl rfl).2 hs

end

/-! ## every run -/

variable {S : Type} [DecidableEq S]

theorem inv_run {counters : Counters} {as : List (Action S)} {s : Sharing S}
    (h : Trace.exec step { counters := counters } as = some s) : Inv s :=
  (Trace.reaches_of_exec as .refl h).invariant (inv_start counters) (fun _ _ _ hs _ hstep => inv_step hs hstep)

/-- **The counters are allotted exactly once throughout a run just when no claim leaves out a counter**, whatever the stages
do and in whatever order. -/
theorem allotted_iff (counters : Counters) (as : List (Action S)) :
    (∀ pre s, pre <+: as → Trace.exec step { counters := counters } pre = some s → Allotted s) ↔
      ∀ pre a s, pre ++ [a] <+: as → Trace.exec step { counters := counters } pre = some s → Complete s a := by
  constructor
  · intro h pre a s hpre hs
    have hallotted := h pre s ((List.prefix_append pre [a]).trans hpre) hs
    cases hstep : step s a with
    | some s' =>
      refine (allotted_step (inv_run hs) hallotted hstep).1 (h (pre ++ [a]) s' hpre ?_)
      rw [Trace.exec_snoc, hs]
      exact hstep
    | none =>
      -- what is not done leaves out nothing
      cases a with
      | resume stage =>
        intro current hphase
        simp only [step, hphase] at hstep
        cases hstep
      | grow | start | acquire | read | finish | cancel => trivial
  · intro h pre
    induction pre using List.reverseRecOn with
    | nil =>
      intro s _ hs
      cases hs
      exact nofun
    | append_singleton pre a ih =>
      intro s' hpre hs'
      rw [Trace.exec_snoc] at hs'
      obtain ⟨s, hs, hstep⟩ := Option.bind_eq_some_iff.1 hs'
      have hallotted := ih s ((List.prefix_append pre [a]).trans hpre) hs
      exact (allotted_step (inv_run hs) hallotted hstep).2 (h pre a s hpre hs)

/-! ## a counter that is left out -/

def used : Counters where
  value name :=
    if name = "prompt_tokens" ∨ name = "total_tokens" then .int 10
    else if name = "cached_tokens" then .int 4
    else .int 0
  nonneg name := by
    split_ifs <;> decide +kernel

def begins (stage : String) : List (Action String) :=
  [.start stage, .acquire stage, .read stage (some ["prompt_tokens", "cached_tokens", "total_tokens"]), .resume stage]

def claims (stage : String) (names : List String) : List (Action String) :=
  [.finish stage, .acquire stage, .read stage (some names), .resume stage]

def leftOut : List (Action String) :=
  begins "researcher" ++ begins "analyst" ++
  [.grow "prompt_tokens" (.int 12), .grow "total_tokens" (.int 12)] ++
  claims "researcher" ["prompt_tokens", "total_tokens"] ++
  [.grow "prompt_tokens" (.int 15), .grow "total_tokens" (.int 15)] ++
  claims "analyst" ["prompt_tokens", "cached_tokens", "total_tokens"]

/-- **A counter that was left out is claimed again**: four cached tokens, none of them since the baseline. -/
theorem claimed_again : ¬ ∀ (counters : Counters) (as : List (Action String)) (s : Sharing String),
    Trace.exec step { counters := counters } as = some s → Allotted s := by
  intro h
  let s := Trace.play step { counters := used } leftOut
  have hrun : Trace.exec step { counters := used } leftOut = some s := Trace.exec_play (by decide +kernel)
  have hgrowth : s.baseline.map (fun b => ((latest b s.claims).get "cached_tokens").worth - (b.get "cached_tokens").worth) = some 0 := by
    decide +kernel
  have hclaimed : ((s.claims.map (Claim.part "cached_tokens")).map (·.amount)).sum = 4 * Number.one := by
    decide +kernel
  obtain ⟨baseline, hbaseline, hzero⟩ := Option.map_eq_some_iff.1 hgrowth
  have htotal := (h used leftOut s hrun baseline hbaseline "cached_tokens").total
  rw [hzero, hclaimed] at htotal
  revert htotal
  decide +kernel

end LlmUsage
end MyGpt
