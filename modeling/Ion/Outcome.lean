/-!
How calls end: where one that is made of two ends well or fails, and pairs of calls that end alike.
-/
namespace Ion

theorem bindOk {first : EStateM ε σ α} {next : α → EStateM ε σ β} {s s' : σ} {b : β}
    (h : (first >>= next) s = .ok b s') :
    ∃ a middle, first s = .ok a middle ∧ next a middle = .ok b s' := by
  simp only [bind, EStateM.bind] at h
  split at h
  · exact ⟨_, _, ‹_›, h⟩
  · contradiction

theorem bindFailed {first : EStateM ε σ α} {next : α → EStateM ε σ β} {s s' : σ} {e : ε}
    (failed : (first >>= next) s = .error e s') :
    first s = .error e s' ∨ ∃ a middle, first s = .ok a middle ∧ next a middle = .error e s' := by
  simp only [bind, EStateM.bind] at failed
  split at failed
  · exact .inr ⟨_, _, ‹_›, failed⟩
  · cases failed
    exact .inl ‹_›

theorem bindRuns {first : EStateM ε σ α} {next : α → EStateM ε σ β} {s s' : σ} {a : α}
    (ok : first s = .ok a s') : (first >>= next) s = next a s' := by
  simp only [bind, EStateM.bind, ok]

theorem bindHalts {first : EStateM ε σ α} {next : α → EStateM ε σ β} {s s' : σ} {e : ε}
    (failed : first s = .error e s') : (first >>= next) s = .error e s' := by
  simp only [bind, EStateM.bind, failed]

theorem bindGot {next : σ → EStateM ε σ α} (s : σ) : (get >>= next) s = next s s := rfl

theorem exceptOk {first : Except ε α} {next : α → Except ε β} {b : β} (ok : (first >>= next) = .ok b) :
    ∃ a, first = .ok a ∧ next a = .ok b := by
  cases first with
  | error e => contradiction
  | ok a => exact ⟨a, rfl, ok⟩

theorem exceptFailed {first : Except ε α} {next : α → Except ε β} {e : ε}
    (failed : (first >>= next) = .error e) :
    first = .error e ∨ ∃ a, first = .ok a ∧ next a = .error e := by
  cases first with
  | error e' =>
    cases failed
    exact .inl rfl
  | ok a => exact .inr ⟨a, rfl, failed⟩

theorem mapErrorOk {first : Except ε α} {f : ε → ε'} {a : α} :
    first.mapError f = .ok a ↔ first = .ok a := by
  cases first <;> constructor <;> intro ok <;> cases ok <;> rfl

theorem mapErrorFailed {first : Except ε α} {f : ε → ε'} {e : ε'}
    (failed : first.mapError f = .error e) : ∃ e', first = .error e' ∧ e = f e' := by
  cases first with
  | error e' =>
    cases failed
    exact ⟨e', rfl, rfl⟩
  | ok a => contradiction

inductive Agree (related : α → β → Prop) : Except ε α → Except ε β → Prop
  | ok {a b} (results : related a b) : Agree related (.ok a) (.ok b)
  | error (e : ε) : Agree related (.error e) (.error e)

namespace Agree

variable {related : α → β → Prop} {x : Except ε α} {y : Except ε β}

theorem bind {related' : γ → δ → Prop} {next : α → Except ε γ} {next' : β → Except ε δ}
    (first : Agree related x y)
    (more : ∀ a b, x = .ok a → related a b → Agree related' (next a) (next' b)) :
    Agree related' (x >>= next) (y >>= next') := by
  cases first with
  | ok results => exact more _ _ rfl results
  | error e => exact .error e

theorem map {related' : γ → δ → Prop} {f : α → γ} {g : β → δ} (first : Agree related x y)
    (results : ∀ a b, related a b → related' (f a) (g b)) : Agree related' (x.map f) (y.map g) := by
  cases first with
  | ok both => exact .ok (results _ _ both)
  | error e => exact .error e

theorem mapError (first : Agree related x y) (f : ε → ε') :
    Agree related (x.mapError f) (y.mapError f) := by
  cases first with
  | ok results => exact .ok results
  | error e => exact .error (f e)

end Agree

end Ion
