import Ion.Cursor
import Ion.Outcome

/-!
Reading that may fail for any cause, and what it does to the bytes ahead: nothing puts bytes
back, and some steps take at least one.
-/
namespace Ion

abbrev Scan (α : Type) := EStateM IonError Cursor α

namespace Scan

def lift (act : Read α) : Scan α := act.adaptExcept IonError.input

def runOn (raw : Bytes) (act : Scan α) : Except IonError α :=
  match act (.ofBytes raw) with
  | .ok a _ => .ok a
  | .error e _ => .error e

def require (condition : Prop) [Decidable condition] (e : IonError) : Scan Unit :=
  if condition then return () else throw e

end Scan

def NeverGrows (act : EStateM ε Cursor α) : Prop :=
  ∀ c a c', act c = .ok a c' → c'.rest.length ≤ c.rest.length

def Shortens (act : EStateM ε Cursor α) : Prop :=
  ∀ c a c', act c = .ok a c' → c'.rest.length < c.rest.length

theorem Shortens.neverGrows {act : EStateM ε Cursor α} (h : Shortens act) : NeverGrows act :=
  fun c a c' ok => Nat.le_of_lt (h c a c' ok)

theorem NeverGrows.bind {first : EStateM ε Cursor α} {next : α → EStateM ε Cursor β}
    (one : NeverGrows first) (two : ∀ a, NeverGrows (next a)) : NeverGrows (first >>= next) := by
  intro c b c' h
  obtain ⟨a, middle, left, right⟩ := bindOk h
  exact Nat.le_trans (two a middle b c' right) (one c a middle left)

theorem Shortens.bind {first : EStateM ε Cursor α} {next : α → EStateM ε Cursor β}
    (one : Shortens first) (two : ∀ a, NeverGrows (next a)) : Shortens (first >>= next) := by
  intro c b c' h
  obtain ⟨a, middle, left, right⟩ := bindOk h
  exact Nat.lt_of_le_of_lt (two a middle b c' right) (one c a middle left)

theorem NeverGrows.bindShortens {first : EStateM ε Cursor α} {next : α → EStateM ε Cursor β}
    (one : NeverGrows first) (two : ∀ a, Shortens (next a)) : Shortens (first >>= next) := by
  intro c b c' h
  obtain ⟨a, middle, left, right⟩ := bindOk h
  exact Nat.lt_of_lt_of_le (two a middle b c' right) (one c a middle left)

theorem pureNeverGrows (a : α) : NeverGrows (pure a : EStateM ε Cursor α) := by
  intro c b c' h
  simp only [pure, EStateM.pure, EStateM.Result.ok.injEq] at h
  simp [← h.2]

theorem getNeverGrows : NeverGrows (get : EStateM ε Cursor Cursor) := by
  intro c b c' h
  change EStateM.Result.ok c c = .ok b c' at h
  cases h
  exact Nat.le_refl _

theorem throwShortens (e : ε) : Shortens (throw e : EStateM ε Cursor α) := by
  intro c b c' h
  change EStateM.Result.error e c = .ok b c' at h
  contradiction

theorem liftShortens {act : Read α} (h : Shortens act) : Shortens (Scan.lift act) := by
  intro c a c' ok
  cases found : act c with
  | error e c1 => simp [Scan.lift, EStateM.adaptExcept, found] at ok
  | ok b c1 =>
    simp only [Scan.lift, EStateM.adaptExcept, found, EStateM.Result.ok.injEq] at ok
    rw [← ok.2]
    exact h c b c1 found

theorem varUIntShortens : Shortens Cursor.varUInt := by
  intro c n c' h
  simp only [Cursor.varUInt, Cursor.number] at h
  split at h
  · rename_i found
    simp only [EStateM.Result.ok.injEq] at h
    have used := VarUInt.digitsUsed found
    simp only [← h.2, Cursor.advance, List.length_drop]
    omega
  · contradiction

theorem u8Shortens : Shortens Cursor.u8 := by
  intro c b c' h
  simp only [Cursor.u8, Cursor.take] at h
  split at h
  · split at h
    · rename_i found
      simp only [EStateM.Result.ok.injEq] at h
      rw [← h.2]
      cases rest : c.rest with
      | nil => simp [rest, Cursor.first] at found
      | cons head tail => simp [Cursor.advance, rest]
    · contradiction
  · contradiction

namespace Scan

theorem requireNeverGrows (condition : Prop) [Decidable condition] (e : IonError) :
    NeverGrows (require condition e) := by
  unfold require
  split
  · exact pureNeverGrows ()
  · exact (throwShortens e).neverGrows

theorem requireStays {condition : Prop} [Decidable condition] {e : IonError} {c c' : Cursor}
    {a : Unit} (ok : require condition e c = .ok a c') : c = c' := by
  unfold require at ok
  split at ok
  · change EStateM.Result.ok () c = .ok a c' at ok
    cases ok
    rfl
  · change EStateM.Result.error e c = .ok a c' at ok
    contradiction

end Scan

end Ion
