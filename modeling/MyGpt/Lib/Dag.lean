import Mathlib.Data.Set.Finite.List
/-!
# Dag — orders in which everything follows its dependencies

`deps x` lists what `x` depends on.  An order is `Ordered` when it is built by appending entries whose dependencies it
already holds, so a property that passes from the dependencies of an entry to the entry holds of all of it
(`Ordered.induct`).  What has an order is acyclic (`Ordered.acyclic`), and in any list an acyclic graph has an entry that
depends on nothing of the list (`Acyclic.exists_free`), which is why such an order can always be found.  A labelling is the
length of the longest chain to each entry exactly when it solves the local equation of `Leveled` (`leveled_iff`).
-/
namespace Dag

variable {α : Type _} (deps : α → List α)

inductive Ordered : List α → Prop
  | nil : Ordered []
  | snoc {order : List α} {x : α} : Ordered order → (∀ d ∈ deps x, d ∈ order) → Ordered (order ++ [x])

variable {deps}

theorem Ordered.append {order : List α} (h : Ordered deps order) :
    ∀ {ready : List α}, (∀ x ∈ ready, ∀ d ∈ deps x, d ∈ order) → Ordered deps (order ++ ready) := by
  intro ready
  induction ready generalizing order with
  | nil =>
    intro _
    rw [List.append_nil]
    exact h
  | cons x ready ih =>
    intro hready
    have hx : Ordered deps (order ++ [x]) := h.snoc (hready x (List.mem_cons_self ..))
    have hrest : ∀ y ∈ ready, ∀ d ∈ deps y, d ∈ order ++ [x] := by
      intro y hy d hd
      have hmem := hready y (List.mem_cons_of_mem _ hy) d hd
      simp [hmem]
    have happ := ih hx hrest
    rw [List.append_assoc, List.singleton_append] at happ
    exact happ

theorem Ordered.induct {order : List α} (h : Ordered deps order) {P : α → Prop}
    (hP : ∀ x, (∀ d ∈ deps x, P d) → P x) : ∀ x ∈ order, P x := by
  induction h with
  | nil =>
    intro x hx
    cases hx
  | @snoc order y _ hdeps ih =>
    intro x hx
    rcases List.mem_append.1 hx with hx | hx
    · exact ih x hx
    · obtain rfl := List.mem_singleton.1 hx
      exact hP x (fun d hd => ih d (hdeps d hd))

theorem Ordered.irrefl {order : List α} (h : Ordered deps order) : ∀ x ∈ order, x ∉ deps x :=
  h.induct (fun _ ih hself => ih _ hself hself)

theorem Ordered.before {order : List α} (h : Ordered deps order) : ∀ {pre post : List α} {x : α},
    order = pre ++ x :: post → ∀ d ∈ deps x, d ∈ pre := by
  induction h with
  | nil =>
    intro pre post x hs
    simp at hs
  | @snoc order y _ hdeps ih =>
    intro pre post x hs
    rcases List.eq_nil_or_concat post with rfl | ⟨post, z, rfl⟩
    · obtain ⟨rfl, hlast⟩ := List.append_inj' hs rfl
      obtain rfl : y = x := by simpa using hlast
      exact hdeps
    · have hs' : order ++ [y] = (pre ++ x :: post) ++ [z] := by simpa using hs
      exact ih (List.append_inj' hs' rfl).1

variable (deps)

def Acyclic : Prop := ∀ x, ¬ Relation.TransGen (fun x d => d ∈ deps x) x x

variable {deps}

theorem Ordered.acyclic {order : List α} (h : Ordered deps order) (hall : ∀ x, deps x ≠ [] → x ∈ order) :
    Acyclic deps := by
  have hoff : ∀ x ∈ order, ¬ Relation.TransGen (fun x d => d ∈ deps x) x x := by
    refine h.induct (fun x ih hcycle => ?_)
    -- the next node of the cycle is on a cycle too
    obtain ⟨d, hd, hback⟩ := Relation.TransGen.head'_iff.1 hcycle
    exact ih d hd (Relation.TransGen.tail' hback hd)
  intro x hcycle
  obtain ⟨d, hd, -⟩ := Relation.TransGen.head'_iff.1 hcycle
  exact hoff x (hall x (List.ne_nil_of_mem hd)) hcycle

theorem Acyclic.exists_free (h : Acyclic deps) {l : List α} (hl : l ≠ []) : ∃ x ∈ l, ∀ d ∈ deps x, d ∉ l := by
  have : Finite {x // x ∈ l} := (List.finite_toSet l).to_subtype
  let below : {x // x ∈ l} → {x // x ∈ l} → Prop := fun d x => Relation.TransGen (fun x d => d ∈ deps x) x.1 d.1
  have : IsTrans {x // x ∈ l} below := ⟨fun a b c hab hbc => hbc.trans hab⟩
  have : Std.Irrefl below := ⟨fun a ha => h a.1 ha⟩
  have hwf : WellFounded below := Finite.wellFounded_of_trans_of_irrefl below
  obtain ⟨x, hx⟩ := List.exists_mem_of_ne_nil l hl
  obtain ⟨m, -, hmin⟩ := hwf.has_min Set.univ ⟨⟨x, hx⟩, trivial⟩
  exact ⟨m.1, m.2, fun d hd hmem => hmin ⟨d, hmem⟩ trivial (Relation.TransGen.single hd)⟩

/-! ## chains -/

variable (deps)

/-- A chain of `n` dependencies ends in `x`. -/
inductive Chain : α → Nat → Prop
  | start (x : α) : Chain x 0
  | step {x d : α} {n : Nat} : d ∈ deps x → Chain d n → Chain x (n + 1)

def above (level : α → Nat) (x : α) : Nat := (deps x).foldr (fun d m => max (level d + 1) m) 0

def Leveled (level : α → Nat) (xs : List α) : Prop := ∀ x ∈ xs, level x = above deps level x

variable {deps}

theorem lt_above {level : α → Nat} {x d : α} (h : d ∈ deps x) : level d < above deps level x := by
  unfold above
  generalize deps x = ds at h
  induction ds with
  | nil => cases h
  | cons e ds ih =>
    rw [List.foldr_cons]
    rcases List.mem_cons.1 h with rfl | h
    · exact Nat.lt_of_lt_of_le (Nat.lt_succ_self _) (Nat.le_max_left _ _)
    · exact Nat.lt_of_lt_of_le (ih h) (Nat.le_max_right _ _)

theorem above_eq (level : α → Nat) (x : α) :
    (above deps level x = 0 ∧ deps x = []) ∨ ∃ d ∈ deps x, above deps level x = level d + 1 := by
  unfold above
  generalize deps x = ds
  induction ds with
  | nil => exact .inl ⟨rfl, rfl⟩
  | cons e ds ih =>
    refine .inr ?_
    rw [List.foldr_cons]
    rcases Nat.le_total (level e + 1) (ds.foldr (fun d m => max (level d + 1) m) 0) with hle | hle
    · rw [Nat.max_eq_right hle]
      rcases ih with ⟨h0, -⟩ | ⟨d, hd, h⟩
      · omega
      · exact ⟨d, List.mem_cons_of_mem _ hd, h⟩
    · exact ⟨e, List.mem_cons_self, Nat.max_eq_left hle⟩

/-- **A labelling that is one above its dependencies everywhere is the length of the longest chain**, and conversely. -/
theorem leveled_iff {level : α → Nat} {order : List α} (h : Ordered deps order)
    (hclosed : ∀ x ∈ order, ∀ d ∈ deps x, d ∈ order) :
    Leveled deps level order ↔ ∀ x ∈ order, IsGreatest {n | Chain deps x n} (level x) := by
  constructor
  · intro hlevel
    have hall : ∀ x ∈ order, x ∈ order → IsGreatest {n | Chain deps x n} (level x) := by
      refine h.induct (fun x ih hx => ⟨?_, ?_⟩)
      · change Chain deps x (level x)
        rw [hlevel x hx]
        rcases @above_eq _ deps level x with ⟨h0, -⟩ | ⟨d, hd, hsucc⟩
        · rw [h0]
          exact .start x
        · rw [hsucc]
          exact .step hd (ih d hd (hclosed x hx d hd)).1
      · rintro n (_ | ⟨hd, hchain⟩)
        · exact Nat.zero_le _
        · rename_i d n
          have hle : n ≤ level d := (ih d hd (hclosed x hx d hd)).2 hchain
          have hlt : level _ < above deps level x := lt_above hd
          rw [hlevel x hx]
          omega
    exact fun x hx => hall x hx hx
  · intro hgreat x hx
    refine Nat.le_antisymm ?_ ?_
    · cases hk : level x with
      | zero => exact Nat.zero_le _
      | succ k =>
        have hchain : Chain deps x (k + 1) := hk ▸ (hgreat x hx).1
        cases hchain with
        | step hd hrest =>
          have hle := (hgreat _ (hclosed x hx _ hd)).2 hrest
          have hlt : level _ < above deps level x := lt_above hd
          omega
    · rcases @above_eq _ deps level x with ⟨h0, -⟩ | ⟨d, hd, hsucc⟩
      · omega
      · rw [hsucc]
        exact (hgreat x hx).2 (Chain.step hd (hgreat d (hclosed x hx d hd)).1)

end Dag
