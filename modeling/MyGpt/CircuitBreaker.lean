import MyGpt.Lib.Trace
import Mathlib.Logic.Function.Basic
/-!
# CircuitBreaker — who is let through to a failing provider

`CircuitBreaker` of `core/concurrency.py` under callers that overlap, report late or never.  Behind the cooldown the breaker
forgets that it was open, so that every call passes and not one probe (`second_probe`); and a success that comes late opens
a breaker that has just shut (`late_success`).  Without the two it keeps what it promises (`breaker_guarded`).
-/
namespace MyGpt
namespace Breaker

structure Config where
  failureThreshold : Int
  cooldown : Int

structure KeyState where
  failures : Nat := 0
  openedAt : Option Int := none
  deriving DecidableEq

abbrev CircuitBreaker := String → Option KeyState

section
variable (cfg : Config) (b : CircuitBreaker) (key : String) (now : Int)

def allow : Bool × CircuitBreaker :=
  match b key with
  | none => (true, b)
  | some st =>
    match st.openedAt with
    | none => (true, b)
    | some openedAt =>
      -- the breaker half-opens by forgetting that it was open
      if cfg.cooldown ≤ now - openedAt then (true, Function.update b key (some { st with openedAt := none }))
      else (false, b)

/-- `before`; it raises where it does not admit. -/
def before : Bool × CircuitBreaker := allow cfg b key now

def recordSuccess : CircuitBreaker := Function.update b key none

def recordFailure : CircuitBreaker :=
  let st := (b key).getD {}
  let failures := st.failures + 1
  Function.update b key
    (some { failures := failures, openedAt := if cfg.failureThreshold ≤ failures then some now else st.openedAt })

end

/-! ## callers -/

inductive DispatchEnd
  | completed
  | stopped
  | budgetExceeded | timedOut | admissionRejected | cancelled | generatorClosed
  | providerError | unexpectedError
  deriving DecidableEq

inductive Outcome
  | success | failure
  | abandoned
  deriving DecidableEq

def DispatchEnd.outcome : DispatchEnd → Outcome
  | .completed | .stopped => .success
  | .budgetExceeded | .timedOut | .admissionRejected | .cancelled | .generatorClosed => .abandoned
  | .providerError | .unexpectedError => .failure

/-- A caller has at most one call out. -/
abbrev Caller := Nat

inductive Entry
  | asked (c : Caller) (at_ : Int) (admitted : Bool)
  | ended (c : Caller) (at_ : Int) (outcome : Outcome)
  deriving DecidableEq

structure World where
  breaker : CircuitBreaker := fun _ => none
  now : Int := 0
  log : List Entry := []

inductive Label
  | ask (c : Caller) (at_ : Int)
  | finish (c : Caller) (end_ : DispatchEnd) (at_ : Int)
  deriving DecidableEq

def out : List Entry → List Caller
  | [] => []
  | .asked c _ admitted :: h => if admitted then c :: out h else out h
  | .ended c _ _ :: h => (out h).filter (· ≠ c)

def record (cfg : Config) (b : CircuitBreaker) (key : String) (now : Int) : Outcome → CircuitBreaker
  | .success => recordSuccess b key
  | .failure => recordFailure cfg b key now
  | .abandoned => b

def step (cfg : Config) (key : String) (w : World) : Label → Option World
  | .ask c now =>
    if w.now ≤ now ∧ c ∉ out w.log then
      let (admitted, b) := before cfg w.breaker key now
      some { breaker := b, now := now, log := .asked c now admitted :: w.log }
    else none
  | .finish c end_ now =>
    if w.now ≤ now ∧ c ∈ out w.log then
      some { breaker := record cfg w.breaker key now end_.outcome, now := now, log := .ended c now end_.outcome :: w.log }
    else none

/-! ## what the breaker promises -/

def consecutive : List Entry → Nat
  | [] => 0
  | .ended _ _ .failure :: h => consecutive h + 1
  | .ended _ _ .success :: _ => 0
  | _ :: h => consecutive h

section
variable (cfg : Config)

def tripped (h : List Entry) : Bool := 0 < consecutive h ∧ cfg.failureThreshold ≤ consecutive h

def trips : List Entry → List Int
  | [] => []
  | .ended _ at_ .failure :: h => if cfg.failureThreshold ≤ consecutive h + 1 then at_ :: trips h else trips h
  | _ :: h => trips h

def probes : List Entry → List Caller
  | [] => []
  | .asked c _ admitted :: h => if admitted && tripped cfg h then c :: probes h else probes h
  | .ended c _ _ :: h => (probes h).filter (· ≠ c)

def Cooled (h : List Entry) (now : Int) : Prop := ∀ t ∈ trips cfg h, cfg.cooldown ≤ now - t

instance (h : List Entry) (now : Int) : Decidable (Cooled cfg h now) := List.decidableBAll ..

structure Guarded (key : String) (w : World) : Prop where
  shut : ∀ later c at_ h, w.log = later ++ .asked c at_ true :: h → Cooled cfg h at_
  single : ∀ later c at_ h, w.log = later ++ .asked c at_ true :: h → probes cfg h = []
  probed : ∀ later c at_ admitted h, w.log = later ++ .asked c at_ admitted :: h → Cooled cfg h at_ → probes cfg h = [] →
    admitted = true
  failed : ∀ later c at_ between p failedAt h,
    w.log = later ++ .asked c at_ true :: (between ++ .ended p failedAt .failure :: h) → p ∈ probes cfg h →
      cfg.cooldown ≤ at_ - failedAt
  counted : ((w.breaker key).map (·.failures)).getD 0 = consecutive w.log

/-- **When the promise is kept**: no call asks while a probe is out, unless a later failure has shut the breaker; and a
success that comes when the threshold is reached is the probe's, a full cooldown behind the last failure. -/
def Fair (w : World) : Label → Prop
  | .ask _ now => probes cfg w.log = [] ∨ ¬ Cooled cfg w.log now
  | .finish c end_ now =>
    end_.outcome = .success → tripped cfg w.log = true → c ∈ probes cfg w.log ∧ Cooled cfg w.log now

instance (w : World) : (l : Label) → Decidable (Fair cfg w l)
  | .ask _ _ => inferInstanceAs (Decidable (_ ∨ _))
  | .finish _ _ _ => inferInstanceAs (Decidable (_ → _))

end

/-! ## one step -/

def World.openedAt (w : World) (key : String) : Option Int := (w.breaker key).bind (·.openedAt)

section
variable {cfg : Config} {key : String} {w w' : World}

theorem Cooled.mono {h : List Entry} {now now' : Int} (hc : Cooled cfg h now) (hle : now ≤ now') : Cooled cfg h now' := by
  intro t ht
  have := hc t ht
  omega

structure Inv (cfg : Config) (key : String) (w : World) : Prop where
  counted : ((w.breaker key).map (·.failures)).getD 0 = consecutive w.log
  past : ∀ t ∈ trips cfg w.log, t ≤ w.now
  opened : ∀ t, w.openedAt key = some t → tripped cfg w.log = true ∧ t ∈ trips cfg w.log ∧ ∀ t' ∈ trips cfg w.log, t' ≤ t
  released : w.openedAt key = none → Cooled cfg w.log w.now
  probing : ∀ later h, w.log = later ++ h → probes cfg h ≠ [] → tripped cfg h = true
  sole : (probes cfg w.log).length ≤ 1

theorem before_cases (cfg : Config) (b : CircuitBreaker) (key : String) (now : Int) :
    ((b key).bind (·.openedAt) = none ∧ before cfg b key now = (true, b)) ∨
    (∃ st openedAt, b key = some st ∧ st.openedAt = some openedAt ∧ cfg.cooldown ≤ now - openedAt ∧
      before cfg b key now = (true, Function.update b key (some { st with openedAt := none }))) ∨
    (∃ openedAt, (b key).bind (·.openedAt) = some openedAt ∧ now - openedAt < cfg.cooldown ∧
      before cfg b key now = (false, b)) := by
  unfold before allow
  cases hkey : b key with
  | none => exact .inl ⟨rfl, rfl⟩
  | some st =>
    cases hopen : st.openedAt with
    | none => exact .inl ⟨hopen, by simp only [hopen]⟩
    | some openedAt =>
      by_cases hcool : cfg.cooldown ≤ now - openedAt
      · exact .inr (.inl ⟨st, openedAt, rfl, hopen, hcool, by simp only [hopen, if_pos hcool]⟩)
      · exact .inr (.inr ⟨openedAt, hopen, by omega, by simp only [hopen, if_neg hcool]⟩)

/-- **A call is admitted exactly when no failure at the threshold is as near as the cooldown**; the count stays, and an
admitted call finds the breaker closed behind it. -/
theorem before_spec (h : Inv cfg key w) {now : Int} (hnow : w.now ≤ now) :
    (before cfg w.breaker key now).1 = decide (Cooled cfg w.log now) ∧
    (((before cfg w.breaker key now).2 key).map (·.failures)).getD 0 = ((w.breaker key).map (·.failures)).getD 0 ∧
    ((before cfg w.breaker key now).2 key).bind (·.openedAt) = if Cooled cfg w.log now then none else w.openedAt key := by
  rcases before_cases cfg w.breaker key now with ⟨hopen, hbefore⟩ | ⟨st, t, hkey, hopen, hcool, hbefore⟩ | ⟨t, hopen, hhot, hbefore⟩
  · have hcooled : Cooled cfg w.log now := (h.released hopen).mono hnow
    rw [hbefore]
    exact ⟨(decide_eq_true hcooled).symm, rfl, by rw [if_pos hcooled]; exact hopen⟩
  · have hopen' : w.openedAt key = some t := by
      unfold World.openedAt
      rw [hkey]
      exact hopen
    have hcooled : Cooled cfg w.log now := by
      intro t' ht'
      have := (h.opened t hopen').2.2 t' ht'
      omega
    rw [hbefore]
    refine ⟨(decide_eq_true hcooled).symm, ?_, ?_⟩
    · dsimp only
      rw [Function.update_self, hkey]
      rfl
    · rw [if_pos hcooled]
      dsimp only
      rw [Function.update_self]
      rfl
  · have hnot : ¬ Cooled cfg w.log now := by
      intro hcooled
      have := hcooled t (h.opened t hopen).2.1
      omega
    rw [hbefore]
    exact ⟨(decide_eq_false hnot).symm, rfl, by rw [if_neg hnot]; rfl⟩

theorem tripped_failure {h : List Entry} (ht : tripped cfg h = true) (c : Caller) (t : Int) :
    tripped cfg (.ended c t .failure :: h) = true := by
  have hh := of_decide_eq_true ht
  refine decide_eq_true ?_
  show 0 < consecutive h + 1 ∧ cfg.failureThreshold ≤ ((consecutive h + 1 : Nat) : Int)
  omega

theorem split_cons {e : Entry} {log later h : List Entry} (hs : e :: log = later ++ h) :
    (later = [] ∧ h = e :: log) ∨ ∃ later', later = e :: later' ∧ log = later' ++ h := by
  cases later with
  | nil => exact .inl ⟨rfl, hs.symm⟩
  | cons e' later' =>
    obtain ⟨rfl, hrest⟩ := List.cons.inj hs
    exact .inr ⟨later', rfl, hrest⟩

theorem probing_cons {e : Entry} (h : Inv cfg key w) (hnew : probes cfg (e :: w.log) ≠ [] → tripped cfg (e :: w.log) = true)
    (later part : List Entry) (hs : e :: w.log = later ++ part) (hne : probes cfg part ≠ []) : tripped cfg part = true := by
  rcases split_cons hs with ⟨-, rfl⟩ | ⟨later', -, hrest⟩
  · exact hnew hne
  · exact h.probing later' part hrest hne

theorem ask_inv (h : Inv cfg key w) {c : Caller} {now : Int} (hnow : w.now ≤ now) (hfair : Fair cfg w (.ask c now)) :
    Inv cfg key
      { breaker := (before cfg w.breaker key now).2, now := now, log := .asked c now (before cfg w.breaker key now).1 :: w.log } := by
  obtain ⟨hadmitted, hcount, hopen⟩ := before_spec h hnow
  have hprobes : probes cfg (.asked c now (before cfg w.breaker key now).1 :: w.log) =
      if decide (Cooled cfg w.log now) && tripped cfg w.log then c :: probes cfg w.log else probes cfg w.log := by
    rw [probes, hadmitted]
  refine ⟨hcount.trans h.counted, fun t ht => Int.le_trans (h.past t ht) hnow, fun t ht => ?_, fun hnone => ?_, ?_, ?_⟩
  · have ht' : ((before cfg w.breaker key now).2 key).bind (·.openedAt) = some t := ht
    rw [hopen] at ht'
    split at ht'
    · cases ht'
    · exact h.opened t ht'
  · have hnone' : ((before cfg w.breaker key now).2 key).bind (·.openedAt) = none := hnone
    rw [hopen] at hnone'
    split at hnone'
    · assumption
    · exact (h.released hnone').mono hnow
  · refine probing_cons h (fun hne => ?_)
    rw [hprobes] at hne
    split at hne
    · rename_i hboth
      exact (Bool.and_eq_true_iff.1 hboth).2
    · exact h.probing [] w.log rfl hne
  · show (probes cfg (.asked c now _ :: w.log)).length ≤ 1
    rw [hprobes]
    split
    · rename_i hboth
      have hcooled := of_decide_eq_true (Bool.and_eq_true_iff.1 hboth).1
      rw [hfair.resolve_right (fun hnot => hnot hcooled)]
      exact Nat.le_refl 1
    · exact h.sole

theorem others_le (h : Inv cfg key w) (c : Caller) : ((probes cfg w.log).filter (· ≠ c)).length ≤ 1 :=
  Nat.le_trans (List.length_filter_le _ _) h.sole

theorem tripped_of_others (h : Inv cfg key w) {c : Caller} (hne : (probes cfg w.log).filter (· ≠ c) ≠ []) :
    tripped cfg w.log = true := by
  refine h.probing [] w.log rfl (fun hnil => hne ?_)
  rw [hnil]
  rfl

theorem cooled_of_success (h : Inv cfg key w) {c : Caller} {end_ : DispatchEnd} {now : Int} (hnow : w.now ≤ now)
    (hfair : Fair cfg w (.finish c end_ now)) (houtcome : end_.outcome = .success) : Cooled cfg w.log now := by
  cases htripped : tripped cfg w.log with
  | true => exact (hfair houtcome htripped).2
  | false =>
    cases hopen : w.openedAt key with
    | none => exact (h.released hopen).mono hnow
    | some t =>
      have := (h.opened t hopen).1
      rw [htripped] at this
      cases this

theorem others_of_success (h : Inv cfg key w) {c : Caller} {end_ : DispatchEnd} {now : Int}
    (hfair : Fair cfg w (.finish c end_ now)) (houtcome : end_.outcome = .success) :
    (probes cfg w.log).filter (· ≠ c) = [] := by
  by_contra hne
  have hmem := (hfair houtcome (tripped_of_others h hne)).1
  have hsole := h.sole
  cases hprobes : probes cfg w.log with
  | nil => rw [hprobes] at hne; exact hne rfl
  | cons p rest =>
    rw [hprobes, List.length_cons] at hsole
    have hrest : rest = [] := List.length_eq_zero_iff.1 (by omega)
    rw [hprobes, hrest] at hmem hne
    rw [List.mem_singleton.1 hmem] at hne
    simp at hne

theorem success_inv (h : Inv cfg key w) {c : Caller} {now : Int} (hnow : w.now ≤ now) (hcooled : Cooled cfg w.log now)
    (hnone : (probes cfg w.log).filter (· ≠ c) = []) :
    Inv cfg key { breaker := recordSuccess w.breaker key, now := now, log := .ended c now .success :: w.log } := by
  have hkey : recordSuccess w.breaker key key = none := Function.update_self ..
  refine ⟨?_, fun t ht => Int.le_trans (h.past t ht) hnow, fun t ht => ?_, fun _ => hcooled, ?_, others_le h c⟩
  · show ((recordSuccess w.breaker key key).map (·.failures)).getD 0 = 0
    rw [hkey]
    rfl
  · have ht' : (recordSuccess w.breaker key key).bind (·.openedAt) = some t := ht
    rw [hkey] at ht'
    cases ht'
  · exact probing_cons h (fun hne => absurd hnone hne)

theorem failure_inv (h : Inv cfg key w) {c : Caller} {now : Int} (hnow : w.now ≤ now) :
    Inv cfg key { breaker := recordFailure cfg w.breaker key now, now := now, log := .ended c now .failure :: w.log } := by
  have hkey : recordFailure cfg w.breaker key now key =
      some { failures := consecutive w.log + 1
             openedAt := if cfg.failureThreshold ≤ consecutive w.log + 1 then some now else w.openedAt key } := by
    unfold recordFailure World.openedAt
    rw [Function.update_self, ← h.counted]
    cases w.breaker key <;> rfl
  have htrips : trips cfg (.ended c now .failure :: w.log) =
      if cfg.failureThreshold ≤ consecutive w.log + 1 then now :: trips cfg w.log else trips cfg w.log := rfl
  have hopened : World.openedAt { breaker := recordFailure cfg w.breaker key now, now := now, log := .ended c now .failure :: w.log } key =
      if cfg.failureThreshold ≤ consecutive w.log + 1 then some now else w.openedAt key := by
    show (recordFailure cfg w.breaker key now key).bind (·.openedAt) = _
    rw [hkey]
    rfl
  refine ⟨?_, fun t ht => ?_, fun t ht => ?_, fun hnone => ?_, ?_, others_le h c⟩
  · show ((recordFailure cfg w.breaker key now key).map (·.failures)).getD 0 = consecutive w.log + 1
    rw [hkey]
    rfl
  · have ht' : t ∈ trips cfg (.ended c now .failure :: w.log) := ht
    rw [htrips] at ht'
    split at ht'
    · rcases List.mem_cons.1 ht' with rfl | ht'
      · exact Int.le_refl _
      · exact Int.le_trans (h.past t ht') hnow
    · exact Int.le_trans (h.past t ht') hnow
  · have ht' := hopened.symm.trans ht
    show tripped cfg (.ended c now .failure :: w.log) = true ∧ t ∈ trips cfg (.ended c now .failure :: w.log) ∧
      ∀ t' ∈ trips cfg (.ended c now .failure :: w.log), t' ≤ t
    rw [htrips]
    split at ht'
    · rename_i hreached
      cases ht'
      rw [if_pos hreached]
      refine ⟨decide_eq_true ⟨Nat.succ_pos _, by exact_mod_cast hreached⟩, List.mem_cons_self, fun t' hmem => ?_⟩
      rcases List.mem_cons.1 hmem with rfl | hmem
      · exact Int.le_refl _
      · exact Int.le_trans (h.past t' hmem) hnow
    · rename_i hbelow
      rw [if_neg hbelow]
      obtain ⟨htripped, hmem⟩ := h.opened t ht'
      exact ⟨tripped_failure htripped c now, hmem⟩
  · have hnone' := hopened.symm.trans hnone
    unfold Cooled
    rw [htrips]
    split at hnone'
    · cases hnone'
    · rename_i hbelow
      rw [if_neg hbelow]
      exact (h.released hnone').mono hnow
  · exact probing_cons h (fun hne => tripped_failure (tripped_of_others h hne) c now)

theorem finish_inv (h : Inv cfg key w) {c : Caller} {end_ : DispatchEnd} {now : Int} (hnow : w.now ≤ now)
    (hfair : Fair cfg w (.finish c end_ now)) :
    Inv cfg key
      { breaker := record cfg w.breaker key now end_.outcome, now := now, log := .ended c now end_.outcome :: w.log } := by
  cases houtcome : end_.outcome with
  | abandoned =>
    exact ⟨h.counted, fun t ht => Int.le_trans (h.past t ht) hnow, h.opened, fun hnone => (h.released hnone).mono hnow,
      probing_cons h (fun hne => tripped_of_others h hne), others_le h c⟩
  | success => exact success_inv h hnow (cooled_of_success h hnow hfair houtcome) (others_of_success h hfair houtcome)
  | failure => exact failure_inv h hnow

/-! ## a run -/

theorem mem_trips_append {h : List Entry} {t : Int} (ht : t ∈ trips cfg h) : ∀ between : List Entry, t ∈ trips cfg (between ++ h)
  | [] => ht
  | .asked _ _ _ :: between => mem_trips_append ht between
  | .ended _ _ .success :: between => mem_trips_append ht between
  | .ended _ _ .abandoned :: between => mem_trips_append ht between
  | .ended _ at_ .failure :: between => by
    have hrest := mem_trips_append ht between
    show t ∈ if cfg.failureThreshold ≤ consecutive (between ++ h) + 1 then at_ :: trips cfg (between ++ h) else trips cfg (between ++ h)
    split
    · exact List.mem_cons_of_mem _ hrest
    · exact hrest

theorem mem_trips_failure {h : List Entry} (htripped : tripped cfg h = true) (c : Caller) (t : Int) :
    t ∈ trips cfg (.ended c t .failure :: h) := by
  have hh := (of_decide_eq_true htripped).2
  have hreached : cfg.failureThreshold ≤ consecutive h + 1 := by omega
  rw [trips, if_pos hreached]
  exact List.mem_cons_self

structure Admitted (cfg : Config) (at_ : Int) (admitted : Bool) (h : List Entry) : Prop where
  shut : admitted = true → Cooled cfg h at_
  single : admitted = true → probes cfg h = []
  probed : Cooled cfg h at_ → probes cfg h = [] → admitted = true

theorem guarded_of_admitted (h : Inv cfg key w)
    (hall : ∀ later c at_ admitted part, w.log = later ++ .asked c at_ admitted :: part → Admitted cfg at_ admitted part) :
    Guarded cfg key w where
  shut := fun later c at_ part hs => (hall later c at_ true part hs).shut rfl
  single := fun later c at_ part hs => (hall later c at_ true part hs).single rfl
  probed := fun later c at_ admitted part hs => (hall later c at_ admitted part hs).probed
  failed := by
    intro later c at_ between p failedAt part hs hp
    have htripped : tripped cfg part = true := by
      refine h.probing (later ++ .asked c at_ true :: (between ++ [.ended p failedAt .failure])) part ?_
        (List.ne_nil_of_mem hp)
      rw [hs]
      simp
    exact (hall later c at_ true _ hs).shut rfl failedAt (mem_trips_append (mem_trips_failure htripped p failedAt) between)
  counted := h.counted

theorem step_keeps (h : Inv cfg key w)
    (hall : ∀ later c at_ admitted part, w.log = later ++ .asked c at_ admitted :: part → Admitted cfg at_ admitted part)
    {l : Label} (hfair : Fair cfg w l) (hstep : step cfg key w l = some w') :
    Inv cfg key w' ∧
      ∀ later c at_ admitted part, w'.log = later ++ .asked c at_ admitted :: part → Admitted cfg at_ admitted part := by
  cases l with
  | ask c now =>
    rw [step] at hstep
    split at hstep
    · rename_i hnow
      cases hstep
      refine ⟨ask_inv h hnow.1 hfair, fun later c' at_ admitted part hs => ?_⟩
      rcases split_cons hs with ⟨-, heq⟩ | ⟨later', -, hrest⟩
      · injection heq with he hpart
        injection he with _ hat hadmitted
        subst hpart hat hadmitted
        obtain ⟨hadmitted, -, -⟩ := before_spec h hnow.1
        refine ⟨fun hyes => ?_, fun hyes => ?_, fun hcooled _ => ?_⟩
        · exact of_decide_eq_true (hadmitted.symm.trans hyes)
        · exact hfair.resolve_right (fun hnot => hnot (of_decide_eq_true (hadmitted.symm.trans hyes)))
        · exact hadmitted.trans (decide_eq_true hcooled)
      · exact hall later' c' at_ admitted part hrest
    · cases hstep
  | finish c end_ now =>
    rw [step] at hstep
    split at hstep
    · rename_i hnow
      cases hstep
      refine ⟨finish_inv h hnow.1 hfair, fun later c' at_ admitted part hs => ?_⟩
      rcases split_cons hs with ⟨-, heq⟩ | ⟨later', -, hrest⟩
      · cases heq
      · exact hall later' c' at_ admitted part hrest
    · cases hstep

theorem inv_new (cfg : Config) (key : String) (now : Int) : Inv cfg key { now := now } where
  counted := rfl
  past := nofun
  opened := nofun
  released := fun _ => nofun
  probing := by
    intro later part hs hne
    obtain ⟨-, rfl⟩ := List.append_eq_nil_iff.1 hs.symm
    exact absurd rfl hne
  sole := Nat.zero_le 1

end

/-- **A breaker keeps its promise in every run of fair steps.** -/
theorem breaker_guarded (cfg : Config) (key : String) (now : Int) {w : World}
    (h : Trace.Runs (step cfg key) (Fair cfg) { now := now } w) : Guarded cfg key w := by
  have hkeep : Inv cfg key w ∧ ∀ later c at_ admitted part, w.log = later ++ .asked c at_ admitted :: part →
      Admitted cfg at_ admitted part := by
    refine h.invariant (P := fun w => Inv cfg key w ∧ ∀ later c at_ admitted part,
      w.log = later ++ .asked c at_ admitted :: part → Admitted cfg at_ admitted part)
      ⟨inv_new cfg key now, fun later c at_ admitted part hs => ?_⟩ (fun w l w' hw hfair hstep => step_keeps hw.1 hw.2 hfair hstep)
    have := congrArg List.length hs
    simp at this
  exact guarded_of_admitted hkeep.1 hkeep.2

def defaultConfig : Config := { failureThreshold := 5, cooldown := 30 }

def outage : List Label := [1, 2, 3, 4, 5].flatMap (fun t => [.ask 0 t, .finish 0 .providerError t])

def failedProbe : List Label := outage ++ [.ask 1 20, .ask 2 35, .finish 2 .providerError 40, .ask 1 60]

theorem fair_failedProbe : ∀ n l, failedProbe[n]? = some l →
    Fair defaultConfig (Trace.play (step defaultConfig "k") { now := 0 } (failedProbe.take n)) l := by
  intro n l hl
  match n with
  | 0 | 1 | 2 | 3 | 4 | 5 | 6 | 7 | 8 | 9 | 10 | 11 | 12 | 13 =>
    cases hl
    decide
  | n + 14 => cases hl

theorem breaker_guarded_failedProbe :
    Guarded defaultConfig "k" (Trace.play (step defaultConfig "k") { now := 0 } failedProbe) :=
  breaker_guarded defaultConfig "k" 0 (Trace.runs_play (by decide) fair_failedProbe)

def twoProbes : List Label := outage ++ [.ask 1 35, .ask 2 36]

/-- **Behind the cooldown every call passes**: the second one while the probe is out. -/
theorem second_probe : ¬ ∀ (cfg : Config) (key : String) (now : Int) (w : World),
    Trace.Reaches (step cfg key) { now := now } w → Guarded cfg key w := by
  intro h
  have hrun : (Trace.exec (step defaultConfig "k") { now := 0 } twoProbes).isSome := by decide
  have hguarded := h defaultConfig "k" 0 _ (Trace.reaches_play hrun)
  have hsingle := hguarded.single [] 2 36 (Trace.play (step defaultConfig "k") { now := 0 } (outage ++ [.ask 1 35])).log
    (by decide)
  revert hsingle
  decide

def lateSuccess : List Label := .ask 9 0 :: outage ++ [.finish 9 .completed 6, .ask 1 7]

/-- **A late success opens a breaker that is shut**, though no call asks while a probe is out. -/
theorem late_success : (Trace.play (step defaultConfig "k") { now := 0 } lateSuccess).log.head? = some (.asked 1 7 true) ∧
    ¬ Guarded defaultConfig "k" (Trace.play (step defaultConfig "k") { now := 0 } lateSuccess) := by
  refine ⟨by decide, fun h => ?_⟩
  have hshut := h.shut [] 1 7 (Trace.play (step defaultConfig "k") { now := 0 } lateSuccess).log.tail (by decide)
  revert hshut
  decide

end Breaker
end MyGpt
