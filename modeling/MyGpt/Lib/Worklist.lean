import Mathlib.Data.List.Nodup
/-!
# Worklist — everything reachable along a successor function

The usual search with a stack: the head of the stack is taken off and its successors that are new are put on.  With as
much fuel as there are nodes to see and entries to take off, the result is closed under the successors
(`search_closed`), and with any fuel it has nothing that is not reachable (`search_forall`).
-/
namespace Worklist

variable {α : Type _} [DecidableEq α] (next : α → List α)

/-- The new ones of `children`, seen and on the stack. -/
def push (seen stack : List α) : List α → List α × List α
  | [] => (seen, stack)
  | child :: children =>
    if child ∈ seen then push seen stack children else push (seen ++ [child]) (child :: stack) children

def search : Nat → List α → List α → List α
  | 0, seen, _ => seen
  | _, seen, [] => seen
  | fuel + 1, seen, x :: stack => search fuel (push seen stack (next x)).1 (push seen stack (next x)).2

def unseen (nodes seen : List α) : Nat := (nodes.filter (fun x => decide (x ∉ seen))).length

variable {next}

theorem unseen_append {nodes seen : List α} (hd : nodes.Nodup) {x : α} (hx : x ∈ nodes) (hnew : x ∉ seen) :
    unseen nodes (seen ++ [x]) + 1 = unseen nodes seen := by
  have hmem : x ∈ nodes.filter (fun y => decide (y ∉ seen)) := List.mem_filter.2 ⟨hx, by simpa using hnew⟩
  have herase : nodes.filter (fun y => decide (y ∉ seen ++ [x])) =
      (nodes.filter (fun y => decide (y ∉ seen))).erase x := by
    rw [(hd.filter _).erase_eq_filter, List.filter_filter]
    refine List.filter_congr (fun y _ => ?_)
    by_cases hy : y = x <;> simp [hy]
  have hlen := List.length_erase_of_mem hmem
  have hpos := List.length_pos_of_mem hmem
  unfold unseen
  rw [herase]
  omega

/-- **What `push` does**: the children are seen, what is newly seen is on the stack, and the work left is the same. -/
theorem push_spec {nodes : List α} (hd : nodes.Nodup) : ∀ (children seen stack : List α),
    (∀ c ∈ children, c ∈ nodes) →
    (∀ x ∈ seen, x ∈ (push seen stack children).1) ∧ (∀ c ∈ children, c ∈ (push seen stack children).1) ∧
      (∀ x ∈ stack, x ∈ (push seen stack children).2) ∧
      (∀ x ∈ (push seen stack children).1, x ∈ seen ∨ x ∈ (push seen stack children).2) ∧
      unseen nodes (push seen stack children).1 + (push seen stack children).2.length =
        unseen nodes seen + stack.length := by
  intro children
  induction children with
  | nil =>
    intro seen stack _
    exact ⟨fun x hx => hx, nofun, fun x hx => hx, fun x hx => .inl hx, rfl⟩
  | cons c children ih =>
    intro seen stack hnodes
    have hrest : ∀ d ∈ children, d ∈ nodes := fun d hd' => hnodes d (List.mem_cons_of_mem _ hd')
    unfold push
    by_cases hseen : c ∈ seen
    · rw [if_pos hseen]
      obtain ⟨h1, h2, h3, h4, h5⟩ := ih seen stack hrest
      refine ⟨h1, fun d hd' => ?_, h3, h4, h5⟩
      rcases List.mem_cons.1 hd' with rfl | hd'
      · exact h1 d hseen
      · exact h2 d hd'
    · rw [if_neg hseen]
      obtain ⟨h1, h2, h3, h4, h5⟩ := ih (seen ++ [c]) (c :: stack) hrest
      have hless := unseen_append hd (hnodes c (List.mem_cons_self ..)) hseen
      refine ⟨fun x hx => h1 x (List.mem_append_left _ hx), fun d hd' => ?_,
        fun x hx => h3 x (List.mem_cons_of_mem _ hx), fun x hx => ?_, ?_⟩
      · rcases List.mem_cons.1 hd' with rfl | hd'
        · exact h1 d (List.mem_append_right _ (List.mem_singleton_self _))
        · exact h2 d hd'
      · rcases h4 x hx with hx | hx
        · rcases List.mem_append.1 hx with hx | hx
          · exact .inl hx
          · obtain rfl := List.mem_singleton.1 hx
            exact .inr (h3 x (List.mem_cons_self ..))
        · exact .inr hx
      · rw [h5, List.length_cons]
        omega

/-- **The search is closed**: it keeps what was seen, and has the successors of the stack and of all it adds. -/
theorem search_closed {nodes : List α} (hd : nodes.Nodup) (hnext : ∀ x, ∀ y ∈ next x, y ∈ nodes) :
    ∀ (fuel : Nat) (seen stack : List α), unseen nodes seen + stack.length ≤ fuel →
      (∀ x ∈ seen, x ∈ search next fuel seen stack) ∧
      ∀ x, x ∈ stack ∨ (x ∈ search next fuel seen stack ∧ x ∉ seen) → ∀ y ∈ next x, y ∈ search next fuel seen stack := by
  intro fuel
  induction fuel with
  | zero =>
    intro seen stack hfuel
    have hempty : stack = [] := List.eq_nil_of_length_eq_zero (by omega)
    subst hempty
    refine ⟨fun x hx => hx, fun x hx => ?_⟩
    rcases hx with hx | ⟨hx, hnew⟩
    · cases hx
    · exact absurd hx hnew
  | succ fuel ih =>
    intro seen stack hfuel
    cases stack with
    | nil =>
      refine ⟨fun x hx => hx, fun x hx => ?_⟩
      rcases hx with hx | ⟨hx, hnew⟩
      · cases hx
      · exact absurd hx hnew
    | cons top stack =>
      obtain ⟨h1, h2, h3, h4, h5⟩ := push_spec hd (next top) seen stack (hnext top)
      have hfuel' : unseen nodes (push seen stack (next top)).1 + (push seen stack (next top)).2.length ≤ fuel := by
        rw [List.length_cons] at hfuel
        omega
      obtain ⟨hkeep, hclosed⟩ := ih _ _ hfuel'
      refine ⟨fun x hx => hkeep x (h1 x hx), fun x hx y hy => ?_⟩
      rcases hx with hx | ⟨hx, hnew⟩
      · rcases List.mem_cons.1 hx with rfl | hx
        · exact hkeep y (h2 y hy)
        · exact hclosed x (.inl (h3 x hx)) y hy
      · by_cases hpushed : x ∈ (push seen stack (next top)).1
        · rcases h4 x hpushed with hold | hstack
          · exact absurd hold hnew
          · exact hclosed x (.inl hstack) y hy
        · exact hclosed x (.inr ⟨hx, hpushed⟩) y hy

theorem push_forall {P : α → Prop} : ∀ {children seen stack : List α}, (∀ c ∈ children, P c) → (∀ x ∈ seen, P x) →
    (∀ x ∈ stack, P x) → (∀ x ∈ (push seen stack children).1, P x) ∧ ∀ x ∈ (push seen stack children).2, P x
  | [], _, _, _, hseen, hstack => ⟨hseen, hstack⟩
  | c :: children, seen, stack, hchildren, hseen, hstack => by
    have hc : P c := hchildren c List.mem_cons_self
    have hrest : ∀ d ∈ children, P d := fun d hd => hchildren d (List.mem_cons_of_mem _ hd)
    unfold push
    split
    · exact push_forall hrest hseen hstack
    · apply push_forall hrest
      · intro x hx
        rcases List.mem_append.1 hx with hx | hx
        · exact hseen x hx
        · rw [List.mem_singleton.1 hx]
          exact hc
      · intro x hx
        rcases List.mem_cons.1 hx with rfl | hx
        · exact hc
        · exact hstack x hx

/-- **What the search finds is reachable**: it keeps to every property of its start that the successors inherit. -/
theorem search_forall {P : α → Prop} (hnext : ∀ x, P x → ∀ y ∈ next x, P y) : ∀ (fuel : Nat) (seen stack : List α),
    (∀ x ∈ seen, P x) → (∀ x ∈ stack, P x) → ∀ x ∈ search next fuel seen stack, P x := by
  intro fuel
  induction fuel with
  | zero =>
    intro seen stack hseen _
    exact hseen
  | succ fuel ih =>
    intro seen stack hseen hstack
    cases stack with
    | nil => exact hseen
    | cons top stack =>
      have htop : ∀ y ∈ next top, P y := hnext top (hstack top List.mem_cons_self)
      obtain ⟨hseen', hstack'⟩ := push_forall htop hseen (fun x hx => hstack x (List.mem_cons_of_mem _ hx))
      exact ih _ _ hseen' hstack'

end Worklist
