import Mathlib.Data.List.Basic
/-!
# Regex — patterns that are searched with backtracking

A place in a text is what stands behind it, nearest first, and what stands ahead.  `ends` lists the places a pattern can
end at, in the order a backtracking search tries them, and `findIter` takes the first of them from left to right.  What is
found belongs to the language of the pattern (`findIter_spec`).
-/
namespace Regex

variable {α : Type _}

inductive Pattern (α : Type _)
  | char (p : α → Bool)
  | seq (r s : Pattern α)
  | alt (r s : Pattern α)
  | star (r : Pattern α)
  | upTo (n : Nat) (r : Pattern α)
  /-- `(?<![..])` -/
  | notBehind (p : α → Bool)
  /-- `(?![..])` -/
  | notAhead (p : α → Bool)

abbrev Place (α : Type _) : Type _ := List α × List α

/-- At most `n` rounds that each take something, the most rounds first. -/
def rounds (f : Place α → List (Place α)) : Nat → Place α → List (Place α)
  | 0, x => [x]
  | n + 1, x => ((f x).filter (fun y => decide (y.2.length < x.2.length))).flatMap (rounds f n) ++ [x]

def ends : Pattern α → Place α → List (Place α)
  | .char p, (behind, c :: ahead) => if p c then [(c :: behind, ahead)] else []
  | .char _, (_, []) => []
  | .seq r s, x => (ends r x).flatMap (ends s)
  | .alt r s, x => ends r x ++ ends s x
  | .star r, x => rounds (ends r) x.2.length x
  | .upTo n r, x => rounds (ends r) n x
  | .notBehind p, x => if x.1.head?.any p then [] else [x]
  | .notAhead p, x => if x.2.head?.any p then [] else [x]

inductive Accepts : Pattern α → List α → Prop
  | char {p : α → Bool} {c : α} : p c = true → Accepts (.char p) [c]
  | seq {r s : Pattern α} {u v : List α} : Accepts r u → Accepts s v → Accepts (.seq r s) (u ++ v)
  | left {r s : Pattern α} {u : List α} : Accepts r u → Accepts (.alt r s) u
  | right {r s : Pattern α} {u : List α} : Accepts s u → Accepts (.alt r s) u
  | starNil {r : Pattern α} : Accepts (.star r) []
  | starCons {r : Pattern α} {u v : List α} : Accepts r u → Accepts (.star r) v → Accepts (.star r) (u ++ v)
  | upToNil {n : Nat} {r : Pattern α} : Accepts (.upTo n r) []
  | upToCons {n : Nat} {r : Pattern α} {u v : List α} : Accepts r u → Accepts (.upTo n r) v →
      Accepts (.upTo (n + 1) r) (u ++ v)
  | behind {p : α → Bool} : Accepts (.notBehind p) []
  | ahead {p : α → Bool} : Accepts (.notAhead p) []

theorem Accepts.star_rec {r : Pattern α} {P : List α → Prop} (hnil : P [])
    (hcons : ∀ u v, Accepts r u → P v → P (u ++ v)) {u : List α} (h : Accepts (.star r) u) : P u := by
  generalize hs : Pattern.star r = s at h
  induction h with
  | starNil => exact hnil
  | starCons hu _ _ ih =>
    obtain rfl := Pattern.star.inj hs
    exact hcons _ _ hu (ih hs)
  | char | seq | left | right | upToNil | upToCons | behind | ahead => cases hs

theorem Accepts.rounds_forall {p : α → Bool} {u : List α}
    (h : Accepts (.star (.char p)) u ∨ ∃ n, Accepts (.upTo n (.char p)) u) : ∀ c ∈ u, p c = true := by
  rcases h with h | ⟨n, h⟩
  · refine Accepts.star_rec (P := fun v => ∀ c ∈ v, p c = true) nofun (fun v w hv hw c hc => ?_) h
    cases hv with
    | char hp =>
      rcases List.mem_append.1 hc with hc | hc
      · exact List.mem_singleton.1 hc ▸ hp
      · exact hw c hc
  · induction n generalizing u with
    | zero =>
      cases h with
      | upToNil => exact nofun
    | succ n ih =>
      cases h with
      | upToNil => exact nofun
      | upToCons hv hw =>
        cases hv with
        | char hp =>
          intro c hc
          rcases List.mem_append.1 hc with hc | hc
          · exact List.mem_singleton.1 hc ▸ hp
          · exact ih hw c hc

/-- From one place to another over the text `u`. -/
structure Over (x y : Place α) (u : List α) : Prop where
  behind : y.1 = u.reverse ++ x.1
  ahead : x.2 = u ++ y.2

theorem Over.refl (x : Place α) : Over x x [] := ⟨rfl, rfl⟩

theorem Over.trans {x y z : Place α} {u v : List α} (h : Over x y u) (h' : Over y z v) : Over x z (u ++ v) :=
  ⟨by rw [h'.behind, h.behind, List.reverse_append, List.append_assoc],
    by rw [h.ahead, h'.ahead, List.append_assoc]⟩

theorem rounds_sound {f : Place α → List (Place α)} {P : List α → Prop}
    (hf : ∀ x y, y ∈ f x → ∃ u, P u ∧ Over x y u) {Q : Nat → List α → Prop} (hnil : ∀ n, Q n [])
    (hcons : ∀ n u v, P u → Q n v → Q (n + 1) (u ++ v)) : ∀ (n : Nat) (x y : Place α), y ∈ rounds f n x →
    ∃ u, Q n u ∧ Over x y u := by
  intro n
  induction n with
  | zero =>
    intro x y hy
    rw [List.mem_singleton.1 hy]
    exact ⟨[], hnil 0, .refl x⟩
  | succ n ih =>
    intro x y hy
    rcases List.mem_append.1 hy with hy | hy
    · obtain ⟨z, hz, hy⟩ := List.mem_flatMap.1 hy
      obtain ⟨u, hu, hxz⟩ := hf x z (List.mem_filter.1 hz).1
      obtain ⟨v, hv, hzy⟩ := ih z y hy
      exact ⟨u ++ v, hcons n u v hu hv, hxz.trans hzy⟩
    · rw [List.mem_singleton.1 hy]
      exact ⟨[], hnil _, .refl x⟩

theorem ends_sound : ∀ (r : Pattern α) (x y : Place α), y ∈ ends r x → ∃ u, Accepts r u ∧ Over x y u := by
  intro r
  induction r with
  | char p =>
    rintro ⟨behind, _ | ⟨c, ahead⟩⟩ y hy
    · cases hy
    · unfold ends at hy
      split at hy
      · rename_i hc
        rw [List.mem_singleton.1 hy]
        exact ⟨[c], .char hc, rfl, rfl⟩
      · cases hy
  | seq r s ihr ihs =>
    intro x y hy
    obtain ⟨z, hz, hy⟩ := List.mem_flatMap.1 hy
    obtain ⟨u, hu, hxz⟩ := ihr x z hz
    obtain ⟨v, hv, hzy⟩ := ihs z y hy
    exact ⟨u ++ v, .seq hu hv, hxz.trans hzy⟩
  | alt r s ihr ihs =>
    intro x y hy
    rcases List.mem_append.1 hy with hy | hy
    · obtain ⟨u, hu, hover⟩ := ihr x y hy
      exact ⟨u, .left hu, hover⟩
    · obtain ⟨u, hu, hover⟩ := ihs x y hy
      exact ⟨u, .right hu, hover⟩
  | star r ih =>
    intro x y hy
    exact rounds_sound (Q := fun _ => Accepts (.star r)) ih (fun _ => .starNil) (fun _ _ _ => .starCons) _ x y hy
  | upTo n r ih =>
    intro x y hy
    exact rounds_sound (Q := fun n => Accepts (.upTo n r)) ih (fun _ => .upToNil) (fun _ _ _ => .upToCons) n x y hy
  | notBehind p =>
    intro x y hy
    unfold ends at hy
    split at hy
    · cases hy
    · rw [List.mem_singleton.1 hy]
      exact ⟨[], .behind, .refl x⟩
  | notAhead p =>
    intro x y hy
    unfold ends at hy
    split at hy
    · cases hy
    · rw [List.mem_singleton.1 hy]
      exact ⟨[], .ahead, .refl x⟩

/-! ## from left to right -/

def findFrom (r : Pattern α) : Nat → Place α → List (Nat × List α)
  | 0, _ => []
  | fuel + 1, (behind, ahead) =>
    match (ends r (behind, ahead)).head? with
    | some y =>
      (behind.length, ahead.take (ahead.length - y.2.length)) ::
        if y.2.length < ahead.length then findFrom r fuel y
        else
          match ahead with
          | [] => []
          | c :: rest => findFrom r fuel (c :: behind, rest)
    | none =>
      match ahead with
      | [] => []
      | c :: rest => findFrom r fuel (c :: behind, rest)

def findIter (r : Pattern α) (text : List α) : List (Nat × List α) := findFrom r (text.length + 1) ([], text)

structure Found (r : Pattern α) (x : Place α) (found : List (Nat × List α)) : Prop where
  accepts : ∀ m ∈ found, Accepts r m.2
  places : ∀ m ∈ found, x.1.length ≤ m.1 ∧ m.2 <+: (x.1.reverse ++ x.2).drop m.1
  increasing : found.Pairwise (fun m m' => m.1 < m'.1)

theorem Found.later {r : Pattern α} {x y : Place α} {u : List α} (hover : Over x y u) {found : List (Nat × List α)}
    (h : Found r y found) : Found r x found where
  accepts := h.accepts
  places := by
    intro m hm
    obtain ⟨hle, hpre⟩ := h.places m hm
    rw [hover.behind, List.length_append] at hle
    rw [hover.behind, List.reverse_append, List.reverse_reverse, List.append_assoc, ← hover.ahead] at hpre
    exact ⟨Nat.le_trans (Nat.le_add_left ..) hle, hpre⟩
  increasing := h.increasing

theorem Found.cons {r : Pattern α} {x y : Place α} {u m : List α} (hover : Over x y u) (hpos : 0 < u.length)
    {found : List (Nat × List α)} (hm : Accepts r m) (hpre : m <+: x.2) (h : Found r y found) :
    Found r x ((x.1.length, m) :: found) where
  accepts := by
    intro m' hm'
    rcases List.mem_cons.1 hm' with rfl | hm'
    · exact hm
    · exact h.accepts m' hm'
  places := by
    intro m' hm'
    rcases List.mem_cons.1 hm' with rfl | hm'
    · refine ⟨Nat.le_refl _, ?_⟩
      rw [List.drop_append_of_le_length (by simp), List.drop_of_length_le (by simp)]
      exact hpre
    · exact (h.later hover).places m' hm'
  increasing := by
    refine List.pairwise_cons.2 ⟨fun m' hm' => ?_, h.increasing⟩
    have hle := (h.places m' hm').1
    rw [hover.behind, List.length_append, List.length_reverse] at hle
    omega

theorem findFrom_spec (r : Pattern α) : ∀ (fuel : Nat) (x : Place α), Found r x (findFrom r fuel x) := by
  intro fuel
  induction fuel with
  | zero => exact fun x => ⟨nofun, nofun, .nil⟩
  | succ fuel ih =>
    rintro ⟨behind, ahead⟩
    have hnext : ∀ c rest, ahead = c :: rest → Over (behind, ahead) (c :: behind, rest) [c] := by
      rintro c rest rfl
      exact ⟨rfl, rfl⟩
    unfold findFrom
    split
    · rename_i y hy
      obtain ⟨u, hu, hover⟩ := ends_sound r _ y (List.mem_of_mem_head? hy)
      have htake : ahead.take (ahead.length - y.2.length) = u := by
        have hsplit : ahead = u ++ y.2 := hover.ahead
        rw [hsplit, List.length_append, Nat.add_sub_cancel, List.take_left]
      rw [htake]
      split
      · rename_i hless
        have hpos : 0 < u.length := by
          have hsplit : ahead = u ++ y.2 := hover.ahead
          rw [hsplit, List.length_append] at hless
          omega
        exact (ih y).cons hover hpos hu ⟨y.2, hover.ahead.symm⟩
      · cases ahead with
        | nil =>
          have hnil : u = [] := (List.append_eq_nil_iff.1 hover.ahead.symm).1
          refine ⟨?_, ?_, List.pairwise_singleton ..⟩
          · intro m hm
            rw [List.mem_singleton.1 hm]
            exact hu
          · intro m hm
            rw [List.mem_singleton.1 hm, hnil]
            exact ⟨Nat.le_refl _, List.nil_prefix⟩
        | cons c rest => exact (ih _).cons (hnext c rest rfl) Nat.one_pos hu ⟨y.2, hover.ahead.symm⟩
    · cases ahead with
      | nil => exact ⟨nofun, nofun, .nil⟩
      | cons c rest => exact (ih _).later (hnext c rest rfl)

/-- **What is found** is of the pattern, stands where it says it does, and comes from left to right. -/
theorem findIter_spec (r : Pattern α) (text : List α) :
    (∀ m ∈ findIter r text, Accepts r m.2 ∧ m.2 <+: text.drop m.1) ∧
      (findIter r text).Pairwise (fun m m' => m.1 < m'.1) := by
  have h := findFrom_spec r (text.length + 1) ([], text)
  exact ⟨fun m hm => ⟨h.accepts m hm, (h.places m hm).2⟩, h.increasing⟩

/-! ## how long a match is, and where the next one is -/

def Pattern.minLength : Pattern α → Nat
  | .char _ => 1
  | .seq r s => r.minLength + s.minLength
  | .alt r s => min r.minLength s.minLength
  | _ => 0

theorem Accepts.minLength_le {r : Pattern α} {u : List α} (h : Accepts r u) : r.minLength ≤ u.length := by
  induction h with
  | char => exact Nat.le_refl 1
  | seq _ _ ihu ihv =>
    rw [List.length_append]
    exact Nat.add_le_add ihu ihv
  | left _ ih => exact Nat.le_trans (Nat.min_le_left _ _) ih
  | right _ ih => exact Nat.le_trans (Nat.min_le_right _ _) ih
  | starNil | starCons | upToNil | upToCons | behind | ahead => exact Nat.zero_le _

theorem findIter_within {r : Pattern α} (hr : 0 < r.minLength) {text : List α} {m : Nat × List α} (hm : m ∈ findIter r text) :
    m.1 < m.1 + m.2.length ∧ m.1 + m.2.length ≤ text.length := by
  obtain ⟨haccepts, hpre⟩ := (findIter_spec r text).1 m hm
  have hpos := Nat.lt_of_lt_of_le hr haccepts.minLength_le
  have hle := hpre.length_le
  rw [List.length_drop] at hle
  omega

theorem findFrom_disjoint (r : Pattern α) : ∀ (fuel : Nat) (x : Place α),
    (findFrom r fuel x).Pairwise (fun m m' => m.1 + m.2.length ≤ m'.1)
  | 0, _ => .nil
  | fuel + 1, (behind, ahead) => by
    have hskip : ∀ c rest, (findFrom r fuel (c :: behind, rest)).Pairwise (fun m m' => m.1 + m.2.length ≤ m'.1) :=
      fun c rest => findFrom_disjoint r fuel (c :: behind, rest)
    unfold findFrom
    split
    · rename_i y hy
      obtain ⟨u, -, hover⟩ := ends_sound r _ y (List.mem_of_mem_head? hy)
      have hsplit : ahead = u ++ y.2 := hover.ahead
      have hbehind : y.1.length = u.length + behind.length := by rw [hover.behind, List.length_append, List.length_reverse]
      have htake : (ahead.take (ahead.length - y.2.length)).length = u.length := by
        rw [List.length_take, hsplit, List.length_append]
        omega
      rw [List.pairwise_cons, htake]
      split
      · refine ⟨fun m hm => ?_, findFrom_disjoint r fuel y⟩
        have hle := ((findFrom_spec r fuel y).places m hm).1
        show behind.length + u.length ≤ m.1
        omega
      · rename_i hless
        have hempty : u.length = 0 := by
          rw [hsplit, List.length_append] at hless
          omega
        cases ahead with
        | nil => exact ⟨nofun, .nil⟩
        | cons c rest =>
          refine ⟨fun m hm => ?_, hskip c rest⟩
          have hle := ((findFrom_spec r fuel (c :: behind, rest)).places m hm).1
          rw [List.length_cons] at hle
          show behind.length + u.length ≤ m.1
          omega
    · cases ahead with
      | nil => exact .nil
      | cons c rest => exact hskip c rest

theorem findIter_disjoint (r : Pattern α) (text : List α) :
    (findIter r text).Pairwise (fun m m' => m.1 + m.2.length ≤ m'.1) := findFrom_disjoint r _ _

end Regex
