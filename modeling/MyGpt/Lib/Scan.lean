import Mathlib.Data.List.Infix
/-!
# Scan — replacing tokens from left to right

A tokenizer gives the length of the token a text begins with, 0 when it begins with none.  `sub` replaces the tokens of
a text, scanning on behind each.  A replacement that lowers a weight in every token fixes exactly the texts without
tokens (`sub_eq_self_iff`).
-/
namespace Scan

variable {α : Type _} (len : List α → Nat) (repl : List α → List α)

def subFuel : Nat → List α → List α
  | 0, s => s
  | _ + 1, [] => []
  | fuel + 1, c :: s =>
    match len (c :: s) with
    | 0 => c :: subFuel fuel s
    | n + 1 => repl ((c :: s).take (n + 1)) ++ subFuel fuel ((c :: s).drop (n + 1))

def sub (s : List α) : List α := subFuel len repl s.length s

def HasToken (s : List α) : Prop := ∃ u, u <:+ s ∧ len u ≠ 0

variable {len repl}

theorem HasToken.of_suffix {s t : List α} (h : HasToken len s) (hst : s <:+ t) : HasToken len t := by
  obtain ⟨u, hu, hlen⟩ := h
  exact ⟨u, hu.trans hst, hlen⟩

theorem hasToken_cons {c : α} {s : List α} : HasToken len (c :: s) ↔ len (c :: s) ≠ 0 ∨ HasToken len s := by
  constructor
  · rintro ⟨u, hu, hlen⟩
    rcases List.suffix_cons_iff.1 hu with rfl | hu
    · exact .inl hlen
    · exact .inr ⟨u, hu, hlen⟩
  · rintro (hlen | h)
    · exact ⟨c :: s, List.suffix_rfl, hlen⟩
    · exact h.of_suffix (List.suffix_cons c s)

theorem subFuel_eq_self : ∀ {fuel : Nat} {s : List α}, ¬ HasToken len s → subFuel len repl fuel s = s := by
  intro fuel
  induction fuel with
  | zero =>
    intro s _
    rfl
  | succ fuel ih =>
    intro s h
    cases s with
    | nil => rfl
    | cons c s =>
      rw [hasToken_cons, not_or, not_ne_iff] at h
      unfold subFuel
      rw [h.1]
      exact congrArg (c :: ·) (ih h.2)

theorem sub_eq_self {s : List α} (h : ¬ HasToken len s) : sub len repl s = s := subFuel_eq_self h

section
variable {p : α → Bool}

def Lowers (len : List α → Nat) (repl : List α → List α) (p : α → Bool) : Prop :=
  ∀ u, len u ≠ 0 → (repl (u.take (len u))).countP p < (u.take (len u)).countP p

theorem subFuel_count (hp : Lowers len repl p) : ∀ {fuel : Nat} {s : List α}, s.length ≤ fuel →
    (subFuel len repl fuel s).countP p ≤ s.countP p ∧
      (HasToken len s → len [] = 0 → (subFuel len repl fuel s).countP p < s.countP p) := by
  intro fuel
  induction fuel with
  | zero =>
    intro s hs
    obtain rfl := List.length_eq_zero_iff.1 (Nat.le_zero.1 hs)
    refine ⟨Nat.le_refl _, ?_⟩
    rintro ⟨u, hu, hlen⟩ hnil
    rw [List.suffix_nil.1 hu] at hlen
    exact absurd hnil hlen
  | succ fuel ih =>
    intro s hs
    cases s with
    | nil =>
      refine ⟨Nat.le_refl _, ?_⟩
      rintro ⟨u, hu, hlen⟩ hnil
      rw [List.suffix_nil.1 hu] at hlen
      exact absurd hnil hlen
    | cons c s =>
      unfold subFuel
      split
      · rename_i hzero
        obtain ⟨hle, hlt⟩ := ih (Nat.le_of_succ_le_succ hs)
        rw [List.countP_cons, List.countP_cons]
        refine ⟨Nat.add_le_add_right hle _, fun htoken hnil => Nat.add_lt_add_right (hlt ?_ hnil) _⟩
        exact (hasToken_cons.1 htoken).resolve_left (fun h => h hzero)
      · rename_i n hlen
        have hshort : ((c :: s).drop (n + 1)).length ≤ fuel := by
          rw [List.length_drop, List.length_cons]
          rw [List.length_cons] at hs
          omega
        have hdrop := (ih hshort).1
        have htok : (repl ((c :: s).take (n + 1))).countP p < ((c :: s).take (n + 1)).countP p := by
          have h := hp (c :: s) (by rw [hlen]; exact Nat.succ_ne_zero n)
          rw [hlen] at h
          exact h
        have hsplit : (c :: s).countP p = ((c :: s).take (n + 1)).countP p + ((c :: s).drop (n + 1)).countP p := by
          rw [← List.countP_append, List.take_append_drop]
        rw [List.countP_append]
        exact ⟨by omega, fun _ _ => by omega⟩

theorem sub_count (hp : Lowers len repl p) (s : List α) : (sub len repl s).countP p ≤ s.countP p :=
  (subFuel_count hp (Nat.le_refl _)).1

theorem sub_eq_self_iff (hp : Lowers len repl p) (hnil : len [] = 0) {s : List α} :
    sub len repl s = s ↔ ¬ HasToken len s := by
  refine ⟨fun h htoken => ?_, sub_eq_self⟩
  have hlt := (subFuel_count hp (Nat.le_refl s.length)).2 htoken hnil
  rw [show subFuel len repl s.length s = s from h] at hlt
  exact Nat.lt_irrefl _ hlt

end

theorem forall_mem_subFuel {P : α → Prop} (hrepl : ∀ u, ∀ c ∈ repl u, P c) (hkeep : ∀ c s, len (c :: s) = 0 → P c) :
    ∀ {fuel : Nat} {s : List α}, s.length ≤ fuel → ∀ c ∈ subFuel len repl fuel s, P c := by
  intro fuel
  induction fuel with
  | zero =>
    intro s hs c hc
    obtain rfl := List.length_eq_zero_iff.1 (Nat.le_zero.1 hs)
    cases hc
  | succ fuel ih =>
    intro s hs c hc
    cases s with
    | nil => cases hc
    | cons d s =>
      unfold subFuel at hc
      split at hc
      · rename_i hzero
        rcases List.mem_cons.1 hc with rfl | hc
        · exact hkeep c s hzero
        · exact ih (Nat.le_of_succ_le_succ hs) c hc
      · rename_i n hlen
        rcases List.mem_append.1 hc with hc | hc
        · exact hrepl _ c hc
        · refine ih ?_ c hc
          rw [List.length_drop, List.length_cons]
          rw [List.length_cons] at hs
          omega

theorem forall_mem_sub {P : α → Prop} (hrepl : ∀ u, ∀ c ∈ repl u, P c) (hkeep : ∀ c s, len (c :: s) = 0 → P c)
    (s : List α) : ∀ c ∈ sub len repl s, P c := forall_mem_subFuel hrepl hkeep (Nat.le_refl s.length)

/-! ## occurrences -/

def occurrences [BEq α] (pat : List α) : List α → Nat
  | [] => if pat.isPrefixOf [] then 1 else 0
  | c :: s => (if pat.isPrefixOf (c :: s) then 1 else 0) + occurrences pat s

variable [BEq α] [LawfulBEq α]

theorem occurrences_cons_of_absent {pat s : List α} {c : α} (h : ¬ pat <+: c :: s) :
    occurrences pat (c :: s) = occurrences pat s := by
  have hfalse : pat.isPrefixOf (c :: s) = false := by
    rw [Bool.eq_false_iff]
    exact fun h' => h (List.isPrefixOf_iff_prefix.1 h')
  rw [occurrences, hfalse]
  exact Nat.zero_add _

theorem occurrences_append {pat s : List α} : ∀ {a : List α},
    (∀ u, u <:+ a → u ≠ [] → ¬ pat <+: u ++ s) → occurrences pat (a ++ s) = occurrences pat s := by
  intro a
  induction a with
  | nil =>
    intro _
    rfl
  | cons c a ih =>
    intro h
    have hhead := h (c :: a) List.suffix_rfl (List.cons_ne_nil c a)
    rw [List.cons_append] at hhead ⊢
    rw [occurrences_cons_of_absent hhead]
    exact ih (fun u hu hne => h u (hu.trans (List.suffix_cons c a)) hne)

theorem occurrences_append_of_not_mem {c : α} {pat s a : List α} (h : c ∉ a) :
    occurrences (c :: pat) (a ++ s) = occurrences (c :: pat) s := by
  refine occurrences_append (fun u hu hne hpat => ?_)
  obtain ⟨d, u, rfl⟩ := List.exists_cons_of_ne_nil hne
  rw [List.cons_append, List.cons_prefix_cons] at hpat
  exact h (hu.subset (hpat.1 ▸ List.mem_cons_self))

end Scan
