import Mathlib.Data.List.Basic
/-!
# Transducer — machines that read a list and write one

A machine reads one symbol at a time, keeps a state and writes something for each symbol.  What it makes of a list does not
depend on how the list is cut (`run_pieces`).
-/
namespace Transducer

variable {σ α β : Type _} (step : σ → α → σ × List β)

def run (s : σ) : List α → σ × List β
  | [] => (s, [])
  | a :: as => ((run (step s a).1 as).1, (step s a).2 ++ (run (step s a).1 as).2)

@[simp] theorem run_nil (s : σ) : run step s [] = (s, []) := rfl

@[simp] theorem run_cons (s : σ) (a : α) (as : List α) :
    run step s (a :: as) = ((run step (step s a).1 as).1, (step s a).2 ++ (run step (step s a).1 as).2) := rfl

theorem run_append (s : σ) (as bs : List α) :
    run step s (as ++ bs) = ((run step (run step s as).1 bs).1, (run step s as).2 ++ (run step (run step s as).1 bs).2) := by
  induction as generalizing s with
  | nil => rfl
  | cons a as ih => rw [List.cons_append, run_cons, ih, run_cons, List.append_assoc]

/-- **The law of chunks**: a machine that reads pieces as a machine reads symbols writes what that writes of the whole. -/
theorem run_pieces (s : σ) (pieces : List (List α)) : run (fun s piece => run step s piece) s pieces = run step s pieces.flatten := by
  induction pieces generalizing s with
  | nil => rfl
  | cons piece pieces ih => rw [run_cons, ih, List.flatten_cons, run_append]

variable {step} {step' : σ → α → σ × List β} {P : σ → Prop}

theorem run_congr (hstep : ∀ s a, P s → P (step s a).1) (h : ∀ s a, P s → step' s a = step s a) {s : σ} (hs : P s)
    (as : List α) : run step' s as = run step s as := by
  induction as generalizing s with
  | nil => rfl
  | cons a as ih => rw [run_cons, run_cons, h s a hs, ih (hstep s a hs)]

theorem run_invariant (hstep : ∀ s a, P s → P (step s a).1) {s : σ} (hs : P s) (as : List α) : P (run step s as).1 := by
  induction as generalizing s with
  | nil => exact hs
  | cons a as ih => exact ih (hstep s a hs)

end Transducer
