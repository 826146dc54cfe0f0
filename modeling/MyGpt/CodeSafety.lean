import MyGpt.EmailCodes
import MyGpt.Lib.Trace
/-!
# CodeSafety — when an emailed code is single-use and safe from guessing

A code is read, compared, deleted and counted in separate commands (`two_calls_accept`), and one counter counts the failures
of both purposes and of every code of the address.  As long as the calls that have read a code come one after another, and
the counter counts failures of one code at a time, a code is accepted once, is compared with at most the allowed number of
wrong guesses, and pays for no other (`codes_safe`).
-/
namespace MyGpt
namespace Email

open Trace (Runs Reaches play reaches_play)

/-! ## what must hold, and when it does -/

structure CodesSafe (cfg : Settings) (s : State) : Prop where
  once : (s.accepted.map (·.code)).Nodup
  purpose : ∀ a ∈ s.accepted, a.purpose = a.code.purpose
  bounded : ∀ c, s.wrong.count c ≤ cfg.maxAttempts.toNat
  own : ∀ t ∈ s.tallied, t.attempts ≤ s.wrong.count t.code
  apart : ∀ i ∈ s.invalidated, i.deleted = i.guessed

def CallOk (s : State) : Call → Prop
  | .wrong _ c => ∀ i ∈ s.counter, i = c
  | .forgetting _ c => ∀ i ∈ s.counter, i = c
  | .uncounting _ c => ∀ i ∈ s.counter, i = c
  | .capped purpose c => ∀ c', s.code purpose = some c' → c' = c
  | _ => True

/-- **One call at a time reads a code, and the counter counts failures of one code at a time.** -/
def CodesOk (cfg : Settings) (s : State) : Act → Prop
  | .compares _ purpose _ => 1 ≤ cfg.maxAttempts ∧ ∀ c, s.code purpose = some c → ∀ x q, (s.calls x).read ≠ some (q, c)
  | .goesOn v => CallOk s (s.calls v)
  | _ => True

/-! ## the codes of the keys and of the calls -/

def Call.gone : Call → Option Code
  | .clearing _ c => some c
  | .forgetting _ c => some c
  | .uncounting _ c => some c
  | _ => none

theorem read_of_gone {call : Call} {c : Code} (h : call.gone = some c) : ∃ p, call.read = some (p, c) := by
  cases call with
  | clearing p code | forgetting p code | uncounting p code => exact ⟨p, congrArg (Option.map (Prod.mk p)) h⟩
  | _ => cases h

structure KeyInv (cfg : Settings) (s : State) : Prop where
  keyed : ∀ p c, (s.codes p).value = some c →
    c.purpose = p ∧ c.id < s.nextId ∧ ∃ d, (s.codes p).deadline = some d ∧ d ≤ s.now + cfg.ttlSeconds * 1000
  read : ∀ v p c, (s.calls v).read = some (p, c) → c.purpose = p ∧ c.id < s.nextId
  alone : ∀ v x p q c, (s.calls v).read = some (p, c) → (s.calls x).read = some (q, c) → v = x
  gone : ∀ v c, (s.calls v).gone = some c → ∀ p, (s.codes p).value ≠ some c
  guessed : ∀ c ∈ s.wrong, c.id < s.nextId
  accepted : ∀ a ∈ s.accepted, a.code.id < s.nextId

section
variable {cfg : Settings} {s s' : State} {act : Act} {v : Nat} {purpose : Purpose} {code : Code}

theorem value_of_code (h : s.code purpose = some code) : (s.codes purpose).value = some code := Expiring.get_eq_some h

theorem keyInv_setCall (hs : KeyInv cfg s) {call : Call} (hread : call.read = none ∨ call.read = (s.calls v).read)
    (hgone : ∀ c, call.gone = some c → ∀ p, (s.codes p).value ≠ some c) : KeyInv cfg (s.setCall v call) := by
  have hbefore : ∀ x p c, ((s.setCall v call).calls x).read = some (p, c) → (s.calls x).read = some (p, c) := by
    intro x p c hx
    by_cases hxv : x = v
    · rw [hxv, setCall_self] at hx
      rcases hread with hnone | hsame
      · rw [hnone] at hx
        cases hx
      · rw [hxv, ← hsame]
        exact hx
    · rwa [setCall_ne s call hxv] at hx
  refine ⟨hs.keyed, fun x p c hx => hs.read x p c (hbefore x p c hx),
    fun x y p q c hx hy => hs.alone x y p q c (hbefore x p c hx) (hbefore y q c hy), fun x c hx => ?_, hs.guessed, hs.accepted⟩
  by_cases hxv : x = v
  · rw [hxv, setCall_self] at hx
    exact hgone c hx
  · rw [setCall_ne s call hxv] at hx
    exact hs.gone x c hx

theorem codes_deleted {p : Purpose} {c : Code} (h : ((s.deleteCode purpose).codes p).value = some c) :
    p ≠ purpose ∧ (s.deleteCode purpose).codes p = s.codes p := by
  unfold State.deleteCode at h ⊢
  dsimp only at h ⊢
  by_cases hp : p = purpose
  · rw [hp, Function.update_self] at h
    cases h
  · exact ⟨hp, Function.update_of_ne hp _ _⟩

theorem keyInv_deleteCode (hs : KeyInv cfg s) : KeyInv cfg (s.deleteCode purpose) := by
  refine { hs with keyed := fun p c hp => ?_, gone := fun x c hx p hp => ?_ }
  · obtain ⟨-, hsame⟩ := codes_deleted hp
    rw [hsame] at hp ⊢
    exact hs.keyed p c hp
  · obtain ⟨-, hsame⟩ := codes_deleted hp
    rw [hsame] at hp
    exact hs.gone x c hx p hp

theorem deleted_gone (hs : KeyInv cfg s) (hread : (s.calls v).read = some (purpose, code)) (p : Purpose) :
    ((s.deleteCode purpose).codes p).value ≠ some code := by
  intro hp
  obtain ⟨hne, hsame⟩ := codes_deleted hp
  rw [hsame] at hp
  exact hne ((hs.keyed p code hp).1.symm.trans (hs.read v purpose code hread).1)

theorem value_issued {text : String} {p : Purpose} {c : Code} (h : (Function.update s.codes purpose
    (Expiring.put ⟨s.nextId, purpose, text⟩ s.now (cfg.ttlSeconds * 1000)) p).value = some c) :
    (p = purpose ∧ c = ⟨s.nextId, purpose, text⟩ ∧ 0 < cfg.ttlSeconds * 1000) ∨ (p ≠ purpose ∧ (s.codes p).value = some c) := by
  by_cases hp : p = purpose
  · rw [hp, Function.update_self] at h
    unfold Expiring.put at h
    split at h
    next => cases h
    next hpos => exact .inl ⟨hp, (Option.some.inj h).symm, Int.not_le.1 hpos⟩
  · rw [Function.update_of_ne hp] at h
    exact .inr ⟨hp, h⟩

theorem keyInv_issued (hs : KeyInv cfg s) (purpose : Purpose) (text : String) :
    KeyInv cfg { s with
      codes := Function.update s.codes purpose (Expiring.put ⟨s.nextId, purpose, text⟩ s.now (cfg.ttlSeconds * 1000))
      nextId := s.nextId + 1 } := by
  refine ⟨fun p c hp => ?_, fun x p c hx => ?_, hs.alone, fun x c hx p hp => ?_, fun c hc => Nat.lt_succ_of_lt (hs.guessed c hc),
    fun a ha => Nat.lt_succ_of_lt (hs.accepted a ha)⟩
  · rcases value_issued hp with ⟨rfl, rfl, hpos⟩ | ⟨hne, hp⟩
    · refine ⟨rfl, Nat.lt_succ_self _, s.now + cfg.ttlSeconds * 1000, ?_, Int.le_refl _⟩
      dsimp only
      rw [Function.update_self, Expiring.put, if_neg (Int.not_le.2 hpos)]
    · obtain ⟨hpurpose, hid, d, hd, hle⟩ := hs.keyed p c hp
      refine ⟨hpurpose, Nat.lt_succ_of_lt hid, d, ?_, hle⟩
      dsimp only
      rwa [Function.update_of_ne hne]
  · obtain ⟨hpurpose, hid⟩ := hs.read x p c hx
    exact ⟨hpurpose, Nat.lt_succ_of_lt hid⟩
  · rcases value_issued hp with ⟨-, rfl, -⟩ | ⟨-, hp⟩
    · obtain ⟨q, hread⟩ := read_of_gone hx
      exact Nat.lt_irrefl _ (hs.read x q _ hread).2
    · exact hs.gone x c hx p hp

theorem keyInv_compares (hs : KeyInv cfg s) {call : Call} (hcode : s.code purpose = some code)
    (halone : ∀ x q, (s.calls x).read ≠ some (q, code)) (hread : call.read = some (purpose, code)) (hgone : call.gone = none) :
    KeyInv cfg (s.setCall v call) := by
  obtain ⟨hpurpose, hid, -⟩ := hs.keyed purpose code (value_of_code hcode)
  refine ⟨hs.keyed, fun x p c hx => ?_, fun x y p q c hx hy => ?_, fun x c hx => ?_, hs.guessed, hs.accepted⟩
  · by_cases hxv : x = v
    · rw [hxv, setCall_self, hread] at hx
      cases hx
      exact ⟨hpurpose, hid⟩
    · rw [setCall_ne s call hxv] at hx
      exact hs.read x p c hx
  · by_cases hxv : x = v
    · by_cases hyv : y = v
      · rw [hxv, hyv]
      · rw [hxv, setCall_self, hread] at hx
        cases hx
        rw [setCall_ne s call hyv] at hy
        exact absurd hy (halone y q)
    · rw [setCall_ne s call hxv] at hx
      by_cases hyv : y = v
      · rw [hyv, setCall_self, hread] at hy
        cases hy
        exact absurd hx (halone x p)
      · rw [setCall_ne s call hyv] at hy
        exact hs.alone x y p q c hx hy
  · by_cases hxv : x = v
    · rw [hxv, setCall_self, hgone] at hx
      cases hx
    · rw [setCall_ne s call hxv] at hx
      exact hs.gone x c hx

theorem keyInv_step (hs : KeyInv cfg s) (hok : CodesOk cfg s act) (h : Move cfg s act s') : KeyInv cfg s' := by
  cases h with
  | passed =>
    refine { hs with keyed := fun p c hp => ?_ }
    obtain ⟨hpurpose, hid, d, hd, hle⟩ := hs.keyed p c hp
    refine ⟨hpurpose, hid, d, hd, ?_⟩
    dsimp only
    omega
  | throttled => exact { hs with }
  | @issued q text purpose =>
    have hissued := keyInv_issued hs purpose text
    exact { hissued with }
  | missed hidle hnone =>
    refine keyInv_setCall hs (.inl hnone) (fun c hc => ?_)
    obtain ⟨p, hread⟩ := read_of_gone hc
    rw [hnone] at hread
    cases hread
  | @right v purpose guess code hidle hcode =>
    have hcompared : KeyInv cfg (s.setCall v (.accepting purpose code)) := keyInv_compares hs hcode (hok.2 code hcode) rfl rfl
    refine { hcompared with accepted := fun a ha => ?_ }
    rcases List.mem_cons.1 ha with rfl | ha
    · exact (hs.keyed purpose code (value_of_code hcode)).2.1
    · exact hs.accepted a ha
  | @wrong v purpose guess code hidle hcode =>
    have hcompared : KeyInv cfg (s.setCall v (.wrong purpose code)) := keyInv_compares hs hcode (hok.2 code hcode) rfl rfl
    refine { hcompared with guessed := fun c hc => ?_ }
    rcases List.mem_cons.1 hc with rfl | hc
    · exact (hs.keyed purpose c (value_of_code hcode)).2.1
    · exact hs.guessed c hc
  | @accepted v purpose code hcall =>
    have hread : (s.calls v).read = some (purpose, code) := by rw [hcall]; rfl
    refine keyInv_setCall (keyInv_deleteCode hs) (.inr hread.symm) (fun c hc p => ?_)
    cases hc
    exact deleted_gone hs hread p
  | @cleared v purpose code hcall =>
    have hcleared : KeyInv cfg { s with interval := {} } :=
      { hs with }
    refine keyInv_setCall hcleared (.inr ?_) (fun c hc p => ?_)
    · show _ = (s.calls v).read
      rw [hcall]
      rfl
    · cases hc
      exact hs.gone v code (by rw [hcall]; rfl) p
  | @forgot v purpose code call hcall hnone =>
    have hforgot : KeyInv cfg { s with attempts := {} } :=
      { hs with }
    refine keyInv_setCall hforgot (.inl hnone) (fun c hc => ?_)
    obtain ⟨p, hread⟩ := read_of_gone hc
    rw [hnone] at hread
    cases hread
  | @tallied v purpose code hcall =>
    have hcounted : KeyInv cfg { s with
        attempts := s.attempts.update s.now (fun l => code :: l.getD [])
        tallied := ⟨code, s.counter.length + 1⟩ :: s.tallied } :=
      { hs with }
    refine keyInv_setCall hcounted (.inr ?_) (fun c hc => ?_)
    · show _ = (s.calls v).read
      rw [hcall]
      rfl
    · cases hc
  | @prolonged v purpose code attempts hcall =>
    have hprolonged : KeyInv cfg { s with attempts := s.attempts.expire s.now (cfg.ttlSeconds * 1000) } :=
      { hs with }
    refine keyInv_setCall hprolonged ?_ (fun c hc => ?_)
    · show _ ∨ _ = (s.calls v).read
      rw [hcall]
      split
      · exact .inr rfl
      · exact .inl rfl
    · split at hc
      · cases hc
      · cases hc
  | @capped v purpose code hcall =>
    have hread : (s.calls v).read = some (purpose, code) := by rw [hcall]; rfl
    have hdeleted : KeyInv cfg (s.deleteCode purpose) := keyInv_deleteCode hs
    have hcapped : KeyInv cfg { s.deleteCode purpose with
        invalidated := ((s.code purpose).map (fun c => Invalidation.mk c code)).toList ++ s.invalidated } :=
      { hdeleted with }
    refine keyInv_setCall hcapped (.inr hread.symm) (fun c hc p => ?_)
    cases hc
    exact deleted_gone hs hread p

/-! ## one acceptance -/

structure OnceInv (s : State) : Prop where
  spent : ∀ a ∈ s.accepted, ∀ p, (s.codes p).value = some a.code → ∃ v q, s.calls v = .accepting q a.code
  once : (s.accepted.map (·.code)).Nodup
  purpose : ∀ a ∈ s.accepted, a.purpose = a.code.purpose

theorem accepting_stays {call : Call} {c : Code} (hv : ∀ q, s.calls v ≠ .accepting q c)
    (h : ∃ x q, s.calls x = .accepting q c) : ∃ x q, (s.setCall v call).calls x = .accepting q c := by
  obtain ⟨x, q, hx⟩ := h
  refine ⟨x, q, ?_⟩
  rw [setCall_ne s call]
  · exact hx
  · rintro rfl
    exact hv q hx

theorem onceInv_setCall (hs : OnceInv s) {call : Call} (hv : ∀ q c, s.calls v ≠ .accepting q c) : OnceInv (s.setCall v call) :=
  ⟨fun a ha p hp => accepting_stays (fun q => hv q a.code) (hs.spent a ha p hp), hs.once, hs.purpose⟩

theorem onceInv_step (hs : OnceInv s) (hkey : KeyInv cfg s) (hok : CodesOk cfg s act) (h : Move cfg s act s') : OnceInv s' := by
  cases h with
  | passed => exact { hs with }
  | throttled => exact { hs with }
  | @issued q text purpose =>
    refine ⟨fun a ha p hp => ?_, hs.once, hs.purpose⟩
    rcases value_issued hp with ⟨-, hnew, -⟩ | ⟨-, hold⟩
    · -- the new code is not among the accepted
      have hid := hkey.accepted a ha
      rw [hnew] at hid
      exact absurd hid (Nat.lt_irrefl _)
    · exact hs.spent a ha p hold
  | missed hidle _ => exact onceInv_setCall hs (fun q c h => by rw [hidle] at h; cases h)
  | @right v purpose guess code hidle hcode =>
    have hvalue := value_of_code hcode
    have hnot : ∀ q c, s.calls v ≠ .accepting q c := fun q c h => by rw [hidle] at h; cases h
    have hfresh : code ∉ s.accepted.map (·.code) := by
      intro hmem
      obtain ⟨a, ha, rfl⟩ := List.mem_map.1 hmem
      obtain ⟨x, q, hx⟩ := hs.spent a ha purpose hvalue
      exact hok.2 a.code hcode x q (by rw [hx]; rfl)
    refine ⟨fun a ha p hp => ?_, List.nodup_cons.2 ⟨hfresh, hs.once⟩, fun a ha => ?_⟩
    · rcases List.mem_cons.1 ha with rfl | ha
      · exact ⟨v, purpose, setCall_self _ _ _⟩
      · exact accepting_stays (s := { s with accepted := ⟨purpose, code⟩ :: s.accepted }) (fun q => hnot q a.code)
          (hs.spent a ha p hp)
    · rcases List.mem_cons.1 ha with rfl | ha
      · exact (hkey.keyed purpose code hvalue).1.symm
      · exact hs.purpose a ha
  | @wrong v purpose guess code hidle _ =>
    have hsame : OnceInv { s with wrong := code :: s.wrong } := { hs with }
    exact onceInv_setCall hsame (fun q c h => by rw [show _ = s.calls v from rfl, hidle] at h; cases h)
  | @accepted v purpose code hcall =>
    have hread : (s.calls v).read = some (purpose, code) := by rw [hcall]; rfl
    refine ⟨fun a ha p hp => ?_, hs.once, hs.purpose⟩
    refine accepting_stays (s := s.deleteCode purpose) (fun q h => ?_) (hs.spent a ha p ?_)
    · replace h : s.calls v = .accepting q a.code := h
      rw [hcall] at h
      obtain ⟨-, hcode⟩ := Call.accepting.inj h
      rw [← hcode] at hp
      exact deleted_gone hkey hread p hp
    · obtain ⟨-, hsame⟩ := codes_deleted hp
      exact hsame ▸ hp
  | @cleared v purpose code hcall =>
    have hsame : OnceInv { s with interval := {} } := { hs with }
    exact onceInv_setCall hsame (fun q c h => by rw [show _ = s.calls v from rfl, hcall] at h; cases h)
  | @forgot v purpose code call hcall _ =>
    have hsame : OnceInv { s with attempts := {} } := { hs with }
    refine onceInv_setCall hsame (fun q c h => ?_)
    replace h : s.calls v = .accepting q c := h
    rcases hcall with hcall | hcall <;> rw [hcall] at h <;> cases h
  | @tallied v purpose code hcall =>
    have hsame : OnceInv { s with
        attempts := s.attempts.update s.now (fun l => code :: l.getD [])
        tallied := ⟨code, s.counter.length + 1⟩ :: s.tallied } := { hs with }
    exact onceInv_setCall hsame (fun q c h => by rw [show _ = s.calls v from rfl, hcall] at h; cases h)
  | @prolonged v purpose code attempts hcall =>
    have hsame : OnceInv { s with attempts := s.attempts.expire s.now (cfg.ttlSeconds * 1000) } :=
      { hs with }
    exact onceInv_setCall hsame (fun q c h => by rw [show _ = s.calls v from rfl, hcall] at h; cases h)
  | @capped v purpose code hcall =>
    have hsame : OnceInv { s.deleteCode purpose with
        invalidated := ((s.code purpose).map (fun c => Invalidation.mk c code)).toList ++ s.invalidated } := by
      refine ⟨fun a ha p hp => hs.spent a ha p ?_, hs.once, hs.purpose⟩
      obtain ⟨-, hsame⟩ := codes_deleted hp
      exact hsame ▸ hp
    refine onceInv_setCall hsame (fun q c h => ?_)
    replace h : s.calls v = .accepting q c := h
    rw [hcall] at h
    cases h

/-! ## the counter -/

def State.tally (s : State) : List Code := s.attempts.value.getD []

def State.Pending (s : State) (c : Code) : Prop := ∃ v q, s.calls v = .wrong q c

def State.Capping (cfg : Settings) (s : State) (c : Code) : Prop :=
  ∃ v q, s.calls v = .capped q c ∨ ∃ n : Nat, s.calls v = .counted q c n ∧ cfg.maxAttempts ≤ n

structure CountInv (cfg : Settings) (s : State) : Prop where
  nonempty : s.attempts.value ≠ some []
  counted : ∀ p c, s.code p = some c →
    s.wrong.count c ≤ s.tally.count c ∨ (s.Pending c ∧ s.wrong.count c ≤ s.tally.count c + 1)
  below : ∀ p c, s.code p = some c → s.tally.count c = 0 ∨ (s.tally.count c : Int) < cfg.maxAttempts ∨ s.Capping cfg c
  lasts : ∀ p c d, s.code p = some c → c ∈ s.tally → (s.codes p).deadline = some d → s.attempts.Lasts d
  tally : ∀ c, s.tally.count c ≤ s.wrong.count c
  pending : ∀ v q c, s.calls v = .wrong q c → s.tally.count c + 1 ≤ s.wrong.count c
  bounded : ∀ c, s.wrong.count c ≤ cfg.maxAttempts.toNat
  own : ∀ t ∈ s.tallied, t.attempts ≤ s.wrong.count t.code
  apart : ∀ i ∈ s.invalidated, i.deleted = i.guessed

theorem counter_cases (s : State) : s.counter = s.tally ∨ s.counter = [] := by
  unfold State.counter State.tally Expiring.get
  split
  · exact .inr rfl
  · exact .inl rfl

theorem counter_count_le (s : State) (c : Code) : s.counter.count c ≤ s.tally.count c := by
  rcases counter_cases s with h | h
  · exact Nat.le_of_eq (by rw [h])
  · rw [h]
    exact Nat.zero_le _

theorem counter_live (hkey : KeyInv cfg s) (hs : CountInv cfg s) (h : s.code purpose = some code) :
    s.counter.count code = s.tally.count code := by
  by_cases hmem : code ∈ s.tally
  · obtain ⟨-, -, d, hd, -⟩ := hkey.keyed purpose code (value_of_code h)
    unfold State.counter State.tally
    rw [Expiring.get_of_lasts (hs.lasts purpose code d h hmem hd) (Expiring.lt_of_get h hd)]
  · have hle := counter_count_le s code
    rw [List.count_eq_zero_of_not_mem hmem] at hle ⊢
    exact Nat.le_zero.1 hle

theorem pending_stays {call : Call} {c : Code} (hv : ∀ q, s.calls v ≠ .wrong q c) (h : s.Pending c) :
    (s.setCall v call).Pending c := by
  obtain ⟨x, q, hx⟩ := h
  refine ⟨x, q, ?_⟩
  rw [setCall_ne s call]
  · exact hx
  · rintro rfl
    exact hv q hx

theorem capping_stays {call : Call} {c : Code} (hv : ∀ q n, s.calls v ≠ .capped q c ∧ s.calls v ≠ .counted q c n)
    (h : s.Capping cfg c) : (s.setCall v call).Capping cfg c := by
  obtain ⟨x, q, hx⟩ := h
  refine ⟨x, q, ?_⟩
  rw [setCall_ne s call]
  · exact hx
  · rintro rfl
    rcases hx with hx | ⟨n, hx, -⟩
    · exact (hv q 0).1 hx
    · exact (hv q n).2 hx

theorem countInv_setCall (hs : CountInv cfg s) {call : Call} (hwrong : ∀ q c, s.calls v ≠ .wrong q c ∧ call ≠ .wrong q c)
    (hcap : ∀ p c, s.code p = some c → ∀ q n, s.calls v ≠ .capped q c ∧ s.calls v ≠ .counted q c n) :
    CountInv cfg (s.setCall v call) := by
  refine { hs with counted := fun p c hp => ?_, below := fun p c hp => ?_, pending := fun x q c hx => ?_ }
  · exact (hs.counted p c hp).imp id (fun h => ⟨pending_stays (fun q => (hwrong q c).1) h.1, h.2⟩)
  · exact (hs.below p c hp).imp id (fun h => h.imp id (capping_stays (hcap p c hp)))
  · by_cases hxv : x = v
    · rw [hxv, setCall_self] at hx
      exact absurd hx (hwrong q c).2
    · rw [setCall_ne s call hxv] at hx
      exact hs.pending x q c hx

theorem wrong_new (hkey : KeyInv cfg s) (h : code.id = s.nextId) : s.wrong.count code = 0 := by
  refine List.count_eq_zero_of_not_mem (fun hmem => ?_)
  exact absurd (hkey.guessed code hmem) (by omega)

theorem count_new (hkey : KeyInv cfg s) (hs : CountInv cfg s) (h : code.id = s.nextId) : s.tally.count code = 0 := by
  have hle := hs.tally code
  rw [wrong_new hkey h] at hle
  exact Nat.le_zero.1 hle

theorem countInv_issued (hkey : KeyInv cfg s) (hs : CountInv cfg s) (purpose : Purpose) (text : String) :
    CountInv cfg { s with
      codes := Function.update s.codes purpose (Expiring.put ⟨s.nextId, purpose, text⟩ s.now (cfg.ttlSeconds * 1000))
      nextId := s.nextId + 1 } := by
  have hlive : ∀ p c, (Function.update s.codes purpose
      (Expiring.put ⟨s.nextId, purpose, text⟩ s.now (cfg.ttlSeconds * 1000)) p).get s.now = some c →
      c.id = s.nextId ∨ (Function.update s.codes purpose
        (Expiring.put ⟨s.nextId, purpose, text⟩ s.now (cfg.ttlSeconds * 1000)) p = s.codes p ∧ s.code p = some c) := by
    intro p c hp
    rcases value_issued (Expiring.get_eq_some hp) with ⟨-, rfl, -⟩ | ⟨hne, -⟩
    · exact .inl rfl
    · rw [Function.update_of_ne hne] at hp ⊢
      exact .inr ⟨rfl, hp⟩
  refine { hs with counted := fun p c hp => ?_, below := fun p c hp => ?_, lasts := fun p c d hp hmem hd => ?_ }
  · rcases hlive p c hp with hnew | ⟨-, hold⟩
    · left
      rw [wrong_new hkey hnew]
      exact Nat.zero_le _
    · exact hs.counted p c hold
  · rcases hlive p c hp with hnew | ⟨-, hold⟩
    · have hzero : s.tally.count c = 0 := count_new hkey hs hnew
      exact .inl hzero
    · exact hs.below p c hold
  · rcases hlive p c hp with hnew | ⟨hsame, hold⟩
    · have hzero : s.tally.count c = 0 := count_new hkey hs hnew
      exact absurd hmem (List.count_eq_zero.1 hzero)
    · exact hs.lasts p c d hold hmem (by rw [← hsame]; exact hd)

theorem countInv_wrong (hs : CountInv cfg s) (hidle : s.calls v = .idle) (hcode : s.code purpose = some code)
    (hmax : 1 ≤ cfg.maxAttempts) (halone : ∀ x q, (s.calls x).read ≠ some (q, code)) :
    CountInv cfg ({ s with wrong := code :: s.wrong }.setCall v (.wrong purpose code)) := by
  have hnotPending : ¬ s.Pending code := by
    rintro ⟨x, q, hx⟩
    exact halone x q (by rw [hx]; rfl)
  have hnotCapping : ¬ s.Capping cfg code := by
    rintro ⟨x, q, hx | ⟨n, hx, -⟩⟩
    · exact halone x q (by rw [hx]; rfl)
    · exact halone x q (by rw [hx]; rfl)
  have hall : s.wrong.count code ≤ s.tally.count code := (hs.counted purpose code hcode).resolve_right (fun h => hnotPending h.1)
  have hroom : s.wrong.count code < cfg.maxAttempts.toNat := by
    rcases hs.below purpose code hcode with hnone | hbelow | hcapping
    · omega
    · omega
    · exact absurd hcapping hnotCapping
  have hmono : ∀ c, s.wrong.count c ≤ (code :: s.wrong).count c := fun c => List.count_le_count_cons
  have hidle' : ∀ q c, s.calls v ≠ .wrong q c := fun q c h => by rw [hidle] at h; cases h
  refine ⟨hs.nonempty, fun p c hp => ?_, fun p c hp => ?_, hs.lasts, fun c => Nat.le_trans (hs.tally c) (hmono c),
    fun x q c hx => ?_, fun c => ?_, fun t ht => Nat.le_trans (hs.own t ht) (hmono t.code), hs.apart⟩
  · by_cases hc : c = code
    · subst hc
      refine .inr ⟨⟨v, purpose, setCall_self _ _ _⟩, ?_⟩
      show (c :: s.wrong).count c ≤ s.tally.count c + 1
      rw [List.count_cons_self]
      exact Nat.succ_le_succ hall
    · show (code :: s.wrong).count c ≤ s.tally.count c ∨ (_ ∧ (code :: s.wrong).count c ≤ s.tally.count c + 1)
      rw [List.count_cons_of_ne (Ne.symm hc)]
      exact (hs.counted p c hp).imp id (fun h => ⟨pending_stays (fun q => hidle' q c) h.1, h.2⟩)
  · refine (hs.below p c hp).imp id (fun h => h.imp id (capping_stays (fun q n => ⟨fun h => ?_, fun h => ?_⟩)))
    · rw [hidle] at h
      cases h
    · rw [hidle] at h
      cases h
  · by_cases hxv : x = v
    · rw [hxv, setCall_self] at hx
      obtain ⟨rfl, rfl⟩ := Call.wrong.inj hx
      show s.tally.count code + 1 ≤ (code :: s.wrong).count code
      rw [List.count_cons_self]
      exact Nat.succ_le_succ (hs.tally code)
    · rw [setCall_ne _ _ hxv] at hx
      exact Nat.le_trans (hs.pending x q c hx) (hmono c)
  · show (code :: s.wrong).count c ≤ _
    by_cases hc : c = code
    · rw [hc, List.count_cons_self]
      exact hroom
    · rw [List.count_cons_of_ne (Ne.symm hc)]
      exact hs.bounded c

theorem countInv_forgot (hkey : KeyInv cfg s) (hs : CountInv cfg s) {call : Call} (hgone : (s.calls v).gone = some code)
    (hown : ∀ i ∈ s.counter, i = code) (hread : call.read = none) :
    CountInv cfg ({ s with attempts := {} }.setCall v call) := by
  have hnone : ∀ p c, s.code p = some c → s.tally.count c = 0 := by
    intro p c hp
    rw [← counter_live hkey hs hp]
    refine List.count_eq_zero_of_not_mem (fun hmem => ?_)
    obtain rfl := hown c hmem
    exact hkey.gone v c hgone p (value_of_code hp)
  have hforgot : CountInv cfg { s with attempts := {} } := by
    refine ⟨(fun h => by cases h), fun p c hp => ?_, fun _ _ _ => .inl rfl, (fun _ _ _ _ hmem => by cases hmem),
      fun c => Nat.zero_le _, fun x q c hx => ?_, hs.bounded, hs.own, hs.apart⟩
    · rcases hs.counted p c hp with hall | ⟨hpending, hle⟩
      · left
        rw [hnone p c hp] at hall
        exact hall
      · refine .inr ⟨hpending, ?_⟩
        rw [hnone p c hp] at hle
        exact hle
    · have := hs.pending x q c hx
      show 0 + 1 ≤ s.wrong.count c
      omega
  have hphase : ∀ q c n, s.calls v ≠ .wrong q c ∧ s.calls v ≠ .capped q c ∧ s.calls v ≠ .counted q c n := by
    intro q c n
    refine ⟨fun h => ?_, fun h => ?_, fun h => ?_⟩ <;> rw [h] at hgone <;> cases hgone
  refine countInv_setCall hforgot (fun q c => ⟨(hphase q c 0).1, fun h => ?_⟩) (fun _ c _ q n => ⟨(hphase q c 0).2.1, (hphase q c n).2.2⟩)
  rw [h] at hread
  cases hread

theorem count_of_own {l : List Code} (h : ∀ i ∈ l, i = code) : l.count code = l.length :=
  List.count_eq_length.2 (fun i hi => (h i hi).symm)

theorem count_of_other {l : List Code} {c : Code} (h : ∀ i ∈ l, i = code) (hne : c ≠ code) : l.count c = 0 :=
  List.count_eq_zero.2 (fun hmem => hne (h c hmem))

theorem countInv_tallied (hkey : KeyInv cfg s) (hs : CountInv cfg s) (hcall : s.calls v = .wrong purpose code)
    (hown : ∀ i ∈ s.counter, i = code) :
    CountInv cfg ({ s with
      attempts := s.attempts.update s.now (fun l => code :: l.getD [])
      tallied := ⟨code, s.counter.length + 1⟩ :: s.tallied }.setCall v (.counted purpose code (s.counter.length + 1))) := by
  have htally : ∀ c, (code :: s.counter).count c = if c = code then s.counter.length + 1 else 0 := by
    intro c
    by_cases hc : c = code
    · rw [hc, if_pos rfl, List.count_cons_self, count_of_own hown]
    · rw [if_neg hc, List.count_cons_of_ne (Ne.symm hc), count_of_other hown hc]
  have hlength : s.counter.length + 1 ≤ s.wrong.count code := by
    have hle := counter_count_le s code
    have hpending := hs.pending v purpose code hcall
    rw [count_of_own hown] at hle
    omega
  have hpendingOther : ∀ {c}, c ≠ code → ∀ q, s.calls v ≠ .wrong q c := by
    intro c hc q h
    rw [hcall] at h
    obtain ⟨-, hcode⟩ := Call.wrong.inj h
    exact hc hcode.symm
  refine ⟨(fun h => by cases h), fun p c hp => ?_, fun p c hp => ?_, fun p c d hp hmem hd => ?_, fun c => ?_, fun x q c hx => ?_,
    hs.bounded, fun t ht => ?_, hs.apart⟩
  · show s.wrong.count c ≤ (code :: s.counter).count c ∨ (_ ∧ s.wrong.count c ≤ (code :: s.counter).count c + 1)
    by_cases hc : c = code
    · subst hc
      rw [List.count_cons_self, counter_live hkey hs hp]
      rcases hs.counted p c hp with h | ⟨-, h⟩
      · exact .inl (by omega)
      · exact .inl h
    · rw [List.count_cons_of_ne (Ne.symm hc), counter_live hkey hs hp]
      exact (hs.counted p c hp).imp id (fun h => ⟨pending_stays (hpendingOther hc) h.1, h.2⟩)
  · show (code :: s.counter).count c = 0 ∨ ((code :: s.counter).count c : Int) < _ ∨ _
    rw [htally c]
    by_cases hc : c = code
    · rw [if_pos hc]
      right
      by_cases hcap : cfg.maxAttempts ≤ (s.counter.length + 1 : Nat)
      · refine .inr ⟨v, purpose, .inr ⟨s.counter.length + 1, ?_, hcap⟩⟩
        rw [hc]
        exact setCall_self _ _ _
      · exact .inl (Int.not_le.1 hcap)
    · rw [if_neg hc]
      exact .inl rfl
  · replace hmem : c ∈ code :: s.counter := hmem
    have hc : c = code := by
      rcases List.mem_cons.1 hmem with hc | hc
      · exact hc
      · exact hown c hc
    unfold Expiring.update
    cases hlive : s.attempts.get s.now with
    | none =>
      intro e he
      cases he
    | some l =>
      have hvalue := Expiring.get_eq_some hlive
      have hin : c ∈ s.tally := by
        cases l with
        | nil => exact absurd hvalue hs.nonempty
        | cons i l =>
          have hi : i = code := hown i (by
            unfold State.counter
            rw [hlive]
            exact List.mem_cons_self)
          unfold State.tally
          rw [hvalue, hc, hi]
          exact List.mem_cons_self
      exact hs.lasts p c d hp hin hd
  · show (code :: s.counter).count c ≤ s.wrong.count c
    rw [htally c]
    split
    next hc =>
      rw [hc]
      exact hlength
    next => exact Nat.zero_le _
  · show (code :: s.counter).count c + 1 ≤ s.wrong.count c
    by_cases hxv : x = v
    · rw [hxv, setCall_self] at hx
      cases hx
    · rw [setCall_ne _ _ hxv] at hx
      have hc : c ≠ code := by
        rintro rfl
        exact hxv (hkey.alone x v q purpose c (by rw [show _ = Call.wrong q c from hx]; rfl) (by rw [hcall]; rfl))
      rw [htally c, if_neg hc]
      have := hs.pending x q c hx
      omega
  · rcases List.mem_cons.1 ht with rfl | ht
    · exact hlength
    · exact hs.own t ht

theorem countInv_prolonged (hkey : KeyInv cfg s) (hs : CountInv cfg s) {attempts : Nat}
    (hcall : s.calls v = .counted purpose code attempts) :
    CountInv cfg ({ s with attempts := s.attempts.expire s.now (cfg.ttlSeconds * 1000) }.setCall v
      (if cfg.maxAttempts ≤ attempts then .capped purpose code else .done false)) := by
  have hvalue : ∀ a, (s.attempts.expire s.now (cfg.ttlSeconds * 1000)).value = some a → s.attempts.value = some a := by
    intro a ha
    unfold Expiring.expire at ha
    split at ha
    next l hl =>
      unfold Expiring.put at ha
      split at ha
      · cases ha
      · cases ha
        exact Expiring.get_eq_some hl
    next => cases ha
  have hle : ∀ c, ((s.attempts.expire s.now (cfg.ttlSeconds * 1000)).value.getD []).count c ≤ s.tally.count c := by
    intro c
    cases ha : (s.attempts.expire s.now (cfg.ttlSeconds * 1000)).value with
    | none => exact Nat.zero_le _
    | some a =>
      unfold State.tally
      exact Nat.le_of_eq (by rw [hvalue a ha])
  have hlive : ∀ {p c}, s.code p = some c →
      ((s.attempts.expire s.now (cfg.ttlSeconds * 1000)).value.getD []).count c = s.tally.count c := by
    intro p c hp
    obtain ⟨-, -, d, hd, hdle⟩ := hkey.keyed p c (value_of_code hp)
    have hlt := Expiring.lt_of_get hp hd
    rw [Expiring.expire_value _ (by omega)]
    exact counter_live hkey hs hp
  have hnotWrong : ∀ q c, s.calls v ≠ .wrong q c := fun q c h => by rw [hcall] at h; cases h
  refine ⟨fun h => hs.nonempty (hvalue [] h), fun p c hp => ?_, fun p c hp => ?_, fun p c d hp _ hd => ?_,
    fun c => Nat.le_trans (hle c) (hs.tally c), fun x q c hx => ?_, hs.bounded, hs.own, hs.apart⟩
  · show s.wrong.count c ≤ ((s.attempts.expire _ _).value.getD []).count c ∨
      (_ ∧ s.wrong.count c ≤ ((s.attempts.expire _ _).value.getD []).count c + 1)
    rw [hlive hp]
    exact (hs.counted p c hp).imp id (fun h => ⟨pending_stays (fun q => hnotWrong q c) h.1, h.2⟩)
  · show ((s.attempts.expire _ _).value.getD []).count c = 0 ∨
      (((s.attempts.expire _ _).value.getD []).count c : Int) < _ ∨ _
    rw [hlive hp]
    refine (hs.below p c hp).imp id (fun h => h.imp id (fun hcapping => ?_))
    obtain ⟨x, q, hx⟩ := hcapping
    by_cases hxv : x = v
    · -- this call is at the cap, and goes on to delete the code
      rw [hxv, hcall] at hx
      rcases hx with hx | ⟨n, hx, hmax⟩
      · cases hx
      · obtain ⟨rfl, rfl, rfl⟩ := Call.counted.inj hx
        rw [if_pos hmax]
        exact ⟨v, purpose, .inl (setCall_self _ _ _)⟩
    · refine ⟨x, q, ?_⟩
      rw [setCall_ne _ _ hxv]
      exact hx
  · obtain ⟨-, -, e, he, hle'⟩ := hkey.keyed p c (value_of_code hp)
    cases he.symm.trans hd
    exact (Expiring.lasts_expire _ _ _).mono hle'
  · by_cases hxv : x = v
    · rw [hxv, setCall_self] at hx
      split at hx
      · cases hx
      · cases hx
    · rw [setCall_ne _ _ hxv] at hx
      exact Nat.le_trans (Nat.succ_le_succ (hle c)) (hs.pending x q c hx)

theorem countInv_delete (hs : CountInv cfg s) : CountInv cfg (s.deleteCode purpose) := by
  have hlive : ∀ {p c}, (s.deleteCode purpose).code p = some c → s.code p = some c ∧ (s.deleteCode purpose).codes p = s.codes p := by
    intro p c hp
    obtain ⟨-, hsame⟩ := codes_deleted (value_of_code hp)
    refine ⟨?_, hsame⟩
    unfold State.code at hp ⊢
    rw [hsame] at hp
    exact hp
  refine ⟨hs.nonempty, fun p c hp => hs.counted p c (hlive hp).1, fun p c hp => hs.below p c (hlive hp).1,
    fun p c d hp hmem hd => hs.lasts p c d (hlive hp).1 hmem ?_, hs.tally, hs.pending, hs.bounded, hs.own, hs.apart⟩
  rw [← (hlive hp).2]
  exact hd

theorem countInv_moves (hs : CountInv cfg s) {call : Call} (hbefore : ∀ q c n, s.calls v ≠ .wrong q c ∧ s.calls v ≠ .capped q c ∧
    s.calls v ≠ .counted q c n) (hafter : ∀ q c, call ≠ .wrong q c) : CountInv cfg (s.setCall v call) :=
  countInv_setCall hs (fun q c => ⟨(hbefore q c 0).1, hafter q c⟩) (fun _ c _ q n => ⟨(hbefore q c 0).2.1, (hbefore q c n).2.2⟩)

theorem countInv_capped (hkey : KeyInv cfg s) (hs : CountInv cfg s) (hcall : s.calls v = .capped purpose code)
    (hsame : ∀ c', s.code purpose = some c' → c' = code) :
    CountInv cfg ({ s.deleteCode purpose with
      invalidated := ((s.code purpose).map (fun c => Invalidation.mk c code)).toList ++ s.invalidated }.setCall v
      (.uncounting purpose code)) := by
  have hread : (s.calls v).read = some (purpose, code) := by rw [hcall]; rfl
  have hdeleted : CountInv cfg (s.deleteCode purpose) := countInv_delete hs
  have hcapped : CountInv cfg { s.deleteCode purpose with
      invalidated := ((s.code purpose).map (fun c => Invalidation.mk c code)).toList ++ s.invalidated } := by
    refine { hdeleted with apart := fun i hi => ?_ }
    rcases List.mem_append.1 hi with hi | hi
    · obtain ⟨c, hc, rfl⟩ := Option.map_eq_some_iff.1 (Option.mem_toList.1 hi)
      exact hsame c hc
    · exact hs.apart i hi
  refine countInv_setCall hcapped (fun q c => ⟨fun h => ?_, fun h => by cases h⟩) (fun p c hp q n => ⟨fun h => ?_, fun h => ?_⟩)
  · replace h : s.calls v = .wrong q c := h
    rw [hcall] at h
    cases h
  · replace h : s.calls v = .capped q c := h
    rw [hcall] at h
    obtain ⟨-, rfl⟩ := Call.capped.inj h
    exact deleted_gone hkey hread p (value_of_code hp)
  · replace h : s.calls v = .counted q c n := h
    rw [hcall] at h
    cases h

theorem countInv_step (hkey : KeyInv cfg s) (hs : CountInv cfg s) (hok : CodesOk cfg s act) (h : Move cfg s act s') :
    CountInv cfg s' := by
  cases h with
  | @passed ms =>
    have hearlier : ∀ {p c}, ({ s with now := s.now + ms } : State).code p = some c → s.code p = some c :=
      fun hp => Expiring.get_of_later hp (Int.le_add_of_nonneg_right (Int.natCast_nonneg ms))
    exact ⟨hs.nonempty, fun p c hp => hs.counted p c (hearlier hp), fun p c hp => hs.below p c (hearlier hp),
      fun p c d hp => hs.lasts p c d (hearlier hp), hs.tally, hs.pending, hs.bounded, hs.own, hs.apart⟩
  | throttled =>
    exact { hs with }
  | @issued q text purpose =>
    have hissued := countInv_issued hkey hs purpose text
    exact { hissued with }
  | missed hidle hnone =>
    refine countInv_moves hs (fun q c n => by rw [hidle]; simp) (fun q c h => ?_)
    rw [h] at hnone
    cases hnone
  | @right v purpose guess code hidle _ =>
    have hsame : CountInv cfg { s with accepted := ⟨purpose, code⟩ :: s.accepted } :=
      { hs with }
    exact countInv_moves hsame (fun q c n => by rw [show _ = Call.idle from hidle]; simp) (fun q c h => by cases h)
  | wrong hidle hcode => exact countInv_wrong hs hidle hcode hok.1 (hok.2 _ hcode)
  | @accepted v purpose code hcall =>
    refine countInv_moves (countInv_delete hs) (fun q c n => ?_) (fun q c h => by cases h)
    rw [show (s.deleteCode purpose).calls v = _ from hcall]
    simp
  | @cleared v purpose code hcall =>
    have hsame : CountInv cfg { s with interval := {} } :=
      { hs with }
    exact countInv_moves hsame (fun q c n => by rw [show _ = Call.clearing _ _ from hcall]; simp) (fun q c h => by cases h)
  | @forgot v purpose code call hcall hnone =>
    replace hok : CallOk s (s.calls v) := hok
    rcases hcall with hcall | hcall
    · rw [hcall] at hok
      exact countInv_forgot hkey hs (by rw [hcall]; rfl) hok hnone
    · rw [hcall] at hok
      exact countInv_forgot hkey hs (by rw [hcall]; rfl) hok hnone
  | @tallied v purpose code hcall =>
    replace hok : CallOk s (s.calls v) := hok
    rw [hcall] at hok
    exact countInv_tallied hkey hs hcall hok
  | prolonged hcall => exact countInv_prolonged hkey hs hcall
  | @capped v purpose code hcall =>
    replace hok : CallOk s (s.calls v) := hok
    rw [hcall] at hok
    exact countInv_capped hkey hs hcall hok

end

/-! ## runs -/

structure CodeInv (cfg : Settings) (s : State) : Prop where
  keys : KeyInv cfg s
  once : OnceInv s
  counts : CountInv cfg s

theorem codeInv_start (cfg : Settings) (now : Int) : CodeInv cfg (.start now) := by
  have hcode : ∀ p c, (State.start now).code p ≠ some c := fun p c h => by cases h
  refine ⟨⟨?_, ?_, ?_, ?_, ?_, ?_⟩, ⟨?_, .nil, ?_⟩, ⟨?_, fun p c h => absurd h (hcode p c), fun p c h => absurd h (hcode p c),
    fun p c d h => absurd h (hcode p c), fun _ => Nat.le_refl 0, ?_, fun _ => Nat.zero_le _, ?_, ?_⟩⟩
  · intro p c h
    cases h
  · intro v p c h
    cases h
  · intro v x p q c h
    cases h
  · intro v c h
    cases h
  · intro c h
    cases h
  · intro a h
    cases h
  · intro a h
    cases h
  · intro a h
    cases h
  · intro h
    cases h
  · intro v q c h
    cases h
  · intro t h
    cases h
  · intro i h
    cases h

/-- **Single use and bounded guessing** in every run under the condition. -/
theorem codes_safe (cfg : Settings) (now : Int) {s : State} (h : Runs (step cfg) (CodesOk cfg) (.start now) s) :
    CodesSafe cfg s := by
  have hs : CodeInv cfg s := h.invariant (codeInv_start cfg now) (fun s act s' hs hok hstep =>
    have hmove := step_move hstep
    ⟨keyInv_step hs.keys hok hmove, onceInv_step hs.once hs.keys hok hmove, countInv_step hs.keys hs.counts hok hmove⟩)
  exact ⟨hs.once.once, hs.once.purpose, hs.counts.bounded, hs.counts.own, hs.counts.apart⟩

def acceptedRun : List Act :=
  [.asks 0 .register, .proceeds 0 "", .proceeds 0 "", .proceeds 0 "", .proceeds 0 "123456", .compares 0 .register "000000",
    .goesOn 0, .goesOn 0, .compares 1 .register "123456", .goesOn 1, .goesOn 1, .goesOn 1]

theorem codes_safe_accepted : CodesSafe {} (play (step {}) (.start 0) acceptedRun) := by
  have hissued : Runs (step {}) (CodesOk {}) (.start 0) (play (step {}) (.start 0) (acceptedRun.take 5)) :=
    .next (.proceeds 0 "123456") (.next (.proceeds 0 "") (.next (.proceeds 0 "") (.next (.proceeds 0 "")
      (.next (.asks 0 .register) .refl trivial rfl) trivial rfl) trivial rfl) trivial rfl) trivial rfl
  have hguess : CodesOk {} (play (step {}) (.start 0) (acceptedRun.take 5)) (.compares 0 .register "000000") :=
    ⟨by decide, fun c _ x q h => by cases h⟩
  have hcount : CallOk (play (step {}) (.start 0) (acceptedRun.take 6)) (.wrong .register ⟨0, .register, "123456"⟩) := by
    intro i hi
    cases hi
  have hright : CodesOk {} (play (step {}) (.start 0) (acceptedRun.take 8)) (.compares 1 .register "123456") := by
    refine ⟨by decide, fun c _ x q h => ?_⟩
    cases x with
    | zero => cases h
    | succ n => cases h
  have hforget : CallOk (play (step {}) (.start 0) (acceptedRun.take 11)) (.forgetting .register ⟨0, .register, "123456"⟩) := by
    intro i hi
    exact List.mem_singleton.1 hi
  exact codes_safe {} 0 (.next (.goesOn 1) (.next (.goesOn 1) (.next (.goesOn 1) (.next (.compares 1 .register "123456")
    (.next (.goesOn 0) (.next (.goesOn 0) (.next (.compares 0 .register "000000") hissued hguess rfl) hcount rfl) trivial rfl)
    hright rfl) trivial rfl) trivial rfl) hforget rfl)

def twoCalls : List Act :=
  [.asks 0 .register, .proceeds 0 "", .proceeds 0 "", .proceeds 0 "", .proceeds 0 "123456", .compares 0 .register "123456",
    .compares 1 .register "123456"]

/-- **Accepted twice.** -/
theorem two_calls_accept :
    ¬ ∀ (cfg : Settings) (now : Int) (s : State), Reaches (step cfg) (.start now) s → CodesSafe cfg s := by
  intro h
  have hs := h {} 0 (play (step {}) (.start 0) twoCalls) (reaches_play (by decide))
  exact absurd hs.once (by decide)

end Email
end MyGpt
