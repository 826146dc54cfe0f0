import Mathlib.Logic.Function.Basic
/-!
# Expiring — keys of a store that expire

A key holds a value and a deadline that is the whole key's: whoever writes the deadline writes it for everything under the
key.  A key past its deadline is not there.
-/

structure Expiring (α : Type _) where
  value : Option α := none
  deadline : Option Int := none
  deriving DecidableEq

namespace Expiring

variable {α : Type _}

def get (key : Expiring α) (now : Int) : Option α := if key.deadline.any (· ≤ now) then none else key.value

def update (key : Expiring α) (now : Int) (f : Option α → α) : Expiring α :=
  { value := some (f (key.get now)), deadline := if (key.get now).isSome then key.deadline else none }

def put (value : α) (now ttl : Int) : Expiring α := if ttl ≤ 0 then {} else { value := some value, deadline := some (now + ttl) }

def expire (key : Expiring α) (now ttl : Int) : Expiring α :=
  match key.get now with
  | some value => put value now ttl
  | none => {}

/-- The key does not expire before `t`. -/
def Lasts (key : Expiring α) (t : Int) : Prop := ∀ d, key.deadline = some d → t ≤ d

theorem get_of_lasts {key : Expiring α} {now t : Int} (h : key.Lasts t) (hnow : now < t) : key.get now = key.value := by
  unfold get
  refine if_neg (fun hany => ?_)
  cases hd : key.deadline with
  | none =>
    rw [hd] at hany
    cases hany
  | some d =>
    rw [hd] at hany
    have hpast := of_decide_eq_true hany
    have hlasts := h d hd
    omega

theorem get_eq_some {key : Expiring α} {now : Int} {a : α} (h : key.get now = some a) : key.value = some a := by
  unfold get at h
  split at h
  · cases h
  · exact h

theorem lt_of_get {key : Expiring α} {now d : Int} {a : α} (h : key.get now = some a) (hd : key.deadline = some d) : now < d := by
  unfold get at h
  rw [hd] at h
  split at h
  · cases h
  · rename_i hlive
    exact Int.not_le.1 (fun hle => hlive (decide_eq_true hle))

theorem lasts_update {key : Expiring α} {now t : Int} {f : Option α → α} (h : key.Lasts t) : (key.update now f).Lasts t := by
  intro d hd
  unfold update at hd
  dsimp only at hd
  split at hd
  · exact h d hd
  · cases hd

theorem lasts_put (value : α) (now ttl : Int) : (put value now ttl).Lasts (now + ttl) := by
  intro d hd
  unfold put at hd
  split at hd
  · cases hd
  · cases hd
    exact Int.le_refl _

theorem Lasts.mono {key : Expiring α} {t u : Int} (h : key.Lasts t) (hle : u ≤ t) : key.Lasts u :=
  fun d hd => Int.le_trans hle (h d hd)

theorem put_value {value : α} {now ttl : Int} (h : 0 < ttl) : (put value now ttl).value = some value := by
  unfold put
  rw [if_neg (Int.not_le.2 h)]

theorem put_get (value : α) {now ttl : Int} (later : Int) (h : 0 < ttl) :
    (put value now ttl).get later = if later < now + ttl then some value else none := by
  unfold put get
  rw [if_neg (Int.not_le.2 h)]
  by_cases hlive : later < now + ttl
  · simp [hlive]
  · simp [hlive, Int.not_lt.1 hlive]

theorem get_of_later {key : Expiring α} {now later : Int} {a : α} (h : key.get later = some a) (hle : now ≤ later) :
    key.get now = some a := by
  have hvalue := get_eq_some h
  cases hd : key.deadline with
  | none =>
    unfold get
    rw [hd, hvalue]
    rfl
  | some d =>
    have hlt := lt_of_get h hd
    rw [get_of_lasts (t := d) (fun e he => Int.le_of_eq (Option.some.inj (hd.symm.trans he))) (by omega), hvalue]

theorem expire_value (key : Expiring α) {now ttl : Int} (h : 0 < ttl) : (key.expire now ttl).value = key.get now := by
  unfold expire
  cases hget : key.get now with
  | none => rfl
  | some a => exact put_value h

theorem lasts_expire (key : Expiring α) (now ttl : Int) : (key.expire now ttl).Lasts (now + ttl) := by
  unfold expire
  cases key.get now with
  | none =>
    intro d hd
    cases hd
  | some a => exact lasts_put a now ttl

/-! ## sets -/

/-- A key whose value is a set of members. -/
abbrev Members (α : Type _) := Expiring (List α)

def sadd (key : Members α) (now : Int) (m : α) : Members α := key.update now (fun v => m :: v.getD [])

def sismember [DecidableEq α] (key : Members α) (now : Int) (m : α) : Bool := ((key.get now).getD []).contains m

/-- The set holds `m`, and does not expire before `t`. -/
def Keeps (key : Members α) (m : α) (t : Int) : Prop := (∃ l, key.value = some l ∧ m ∈ l) ∧ key.Lasts t

theorem sismember_of_keeps [DecidableEq α] {key : Members α} {m : α} {now t : Int} (h : key.Keeps m t) (hnow : now < t) :
    key.sismember now m = true := by
  obtain ⟨⟨l, hl, hm⟩, hlasts⟩ := h
  unfold sismember
  rw [get_of_lasts hlasts hnow, hl]
  simpa using hm

theorem Keeps.mono {key : Members α} {m : α} {t u : Int} (h : key.Keeps m t) (hle : u ≤ t) : key.Keeps m u :=
  ⟨h.1, h.2.mono hle⟩

theorem keeps_sadd {key : Members α} {m : α} {now t : Int} (m' : α) (h : key.Keeps m t) (hnow : now < t) :
    (key.sadd now m').Keeps m t := by
  obtain ⟨⟨l, hl, hm⟩, hlasts⟩ := h
  refine ⟨⟨m' :: l, ?_, List.mem_cons_of_mem _ hm⟩, lasts_update hlasts⟩
  unfold sadd update
  rw [get_of_lasts hlasts hnow, hl]
  rfl

/-- **`EXPIRE` is for the whole set**: a member stays as long as the new deadline is not before its time. -/
theorem keeps_expire {key : Members α} {m : α} {now t ttl : Int} (h : key.Keeps m t) (hnow : now < t) (hle : t ≤ now + ttl) :
    (key.expire now ttl).Keeps m t := by
  obtain ⟨⟨l, hl, hm⟩, hlasts⟩ := h
  unfold expire
  rw [get_of_lasts hlasts hnow, hl]
  exact ⟨⟨l, put_value (by omega), hm⟩, (lasts_put l now ttl).mono hle⟩

theorem keeps_added (key : Members α) (m : α) {now ttl : Int} (h : 0 < ttl) :
    ((key.sadd now m).expire now ttl).Keeps m (now + ttl) := by
  have hget : (key.sadd now m).get now = some (m :: (key.get now).getD []) := by
    unfold get
    refine if_neg (fun hany => ?_)
    unfold sadd update at hany
    dsimp only at hany
    split at hany
    next hsome =>
      unfold get at hsome
      rw [if_pos hany] at hsome
      cases hsome
    next => cases hany
  unfold expire
  rw [hget]
  exact ⟨⟨_, put_value h, List.mem_cons_self⟩, lasts_put _ _ _⟩

end Expiring
