import Ion.Bytes

/-! Calls one after the other, each with its answer, and two sides that answer the same calls. -/
namespace Ion

namespace Dialogue

def after (step : σ → ρ → α × σ) (s : σ) (calls : List ρ) : σ :=
  calls.foldl (fun s call => (step s call).2) s

def answers (step : σ → ρ → α × σ) (s : σ) : List ρ → List α
  | [] => []
  | call :: rest => (step s call).1 :: answers step (step s call).2 rest

def Along (step : σ → ρ → α × σ) (allowed : σ → ρ → Prop) (s : σ) : List ρ → Prop
  | [] => True
  | call :: rest => allowed s call ∧ Along step allowed (step s call).2 rest

variable {step : σ → ρ → α × σ} {step' : τ → ρ → β × τ} {allowed : σ → ρ → Prop}

theorem afterAppend (s : σ) (front rest : List ρ) :
    after step s (front ++ rest) = after step (after step s front) rest := List.foldl_append

theorem answersAppend (s : σ) (front rest : List ρ) :
    answers step s (front ++ rest) = answers step s front ++ answers step (after step s front) rest := by
  induction front generalizing s with
  | nil => rfl
  | cons call front ih => exact congrArg ((step s call).1 :: ·) (ih (step s call).2)

theorem alongAppend {s : σ} {front rest : List ρ} :
    Along step allowed s (front ++ rest) ↔
      Along step allowed s front ∧ Along step allowed (after step s front) rest := by
  induction front generalizing s with
  | nil => simp [Along, after]
  | cons call front ih => exact (and_congr_right fun _ => ih).trans and_assoc.symm

theorem alongAll (free : ∀ s call, allowed s call) (s : σ) (calls : List ρ) :
    Along step allowed s calls := by
  induction calls generalizing s with
  | nil => trivial
  | cons call rest ih => exact ⟨free s call, ih (step s call).2⟩

theorem invariant (holds : σ → Prop) {s : σ} (first : holds s) {calls : List ρ}
    (along : Along step allowed s calls)
    (steps : ∀ {s call}, holds s → allowed s call → holds (step s call).2) :
    holds (after step s calls) := by
  induction calls generalizing s with
  | nil => exact first
  | cons call rest ih => exact ih (steps first along.1) along.2

section Together

variable (related : σ → τ → Prop)

theorem stayRelated {s : σ} {t : τ} (first : related s t) {calls : List ρ}
    (along : Along step allowed s calls)
    (steps : ∀ {s t call}, related s t → allowed s call → related (step s call).2 (step' t call).2) :
    related (after step s calls) (after step' t calls) := by
  induction calls generalizing s t with
  | nil => exact first
  | cons call rest ih => exact ih (steps first along.1) along.2

theorem answerTogether (same : α → β) {s : σ} {t : τ} (first : related s t) {calls : List ρ}
    (along : Along step allowed s calls)
    (steps : ∀ {s t call}, related s t → allowed s call →
      (step' t call).1 = same (step s call).1 ∧ related (step s call).2 (step' t call).2) :
    answers step' t calls = (answers step s calls).map same := by
  induction calls generalizing s t with
  | nil => rfl
  | cons call rest ih =>
    obtain ⟨answer, next⟩ := steps first along.1
    exact congr (congrArg List.cons answer) (ih next along.2)

end Together

end Dialogue

end Ion
