import Ion.Proofs.Outlines

/-! Where scans go. A scan that begins at a place of the data, with the bytes that the data has from there,
ends at such a place, in success and in failure, and not before it began. -/
namespace Ion

namespace Cursor

def Inside (data : Bytes) (c : Cursor) : Prop := data.slice? c.pos c.stop = some c.rest

def Onward (c c' : Cursor) : Prop := ∃ n, c.pos + n ≤ c.stop ∧ c' = c.advance n

variable {data : Bytes} {c c' c'' : Cursor} {n : Nat}

theorem insideIff : c.Inside data ↔
    (c.pos ≤ c.stop ∧ c.stop ≤ data.length) ∧ (data.take c.stop).drop c.pos = c.rest := by
  simp only [Inside, Bytes.slice?, Option.ite_none_right_eq_some, Option.some.injEq]

theorem ofBytesInside (data : Bytes) : (ofBytes data).Inside data :=
  insideIff.mpr ⟨⟨Nat.zero_le _, Nat.le_refl _⟩, by simp [ofBytes]⟩

namespace Inside

theorem sound (inside : c.Inside data) : c.Sound := by
  obtain ⟨⟨order, bound⟩, rest⟩ := insideIff.mp inside
  rw [Sound, ← rest, List.length_drop, List.length_take]
  omega

theorem part (inside : c.Inside data) (room : c.pos + n ≤ c.stop) : (c.part n).Inside data := by
  obtain ⟨⟨order, bound⟩, rest⟩ := insideIff.mp inside
  refine insideIff.mpr ⟨⟨Nat.le_add_right _ _, Nat.le_trans room bound⟩, ?_⟩
  rw [Cursor.part, ← rest, List.take_drop, List.take_take, Nat.min_eq_left room]

theorem advance (inside : c.Inside data) (room : c.pos + n ≤ c.stop) :
    (c.advance n).Inside data := by
  obtain ⟨⟨order, bound⟩, rest⟩ := insideIff.mp inside
  refine insideIff.mpr ⟨⟨room, bound⟩, ?_⟩
  rw [Cursor.advance, ← rest, List.drop_drop]

theorem onward (inside : c.Inside data) (on : c.Onward c') : c'.Inside data := by
  obtain ⟨n, room, rfl⟩ := on
  exact inside.advance room

end Inside

namespace Onward

theorem here (inside : c.Inside data) : c.Onward c :=
  ⟨0, (insideIff.mp inside).1.1, (advanceNothing c).symm⟩

theorem trans (one : c.Onward c') (two : c'.Onward c'') : c.Onward c'' := by
  obtain ⟨m, room, rfl⟩ := one
  obtain ⟨n, room', rfl⟩ := two
  rw [advancePos] at room'
  exact ⟨m + n, by rw [← Nat.add_assoc]; exact room', advanceAdvance c m n⟩

theorem stop (on : c.Onward c') : c'.stop = c.stop := by
  obtain ⟨n, _, rfl⟩ := on
  rfl

end Onward

end Cursor

namespace Scan

structure Stays (act : Scan α) (c : Cursor) : Prop where
  ok {a c'} (ok : act c = .ok a c') : c.Onward c'
  error {e c'} (failed : act c = .error e c') : c.Onward c'

def Safe (data : Bytes) (act : Scan α) : Prop := ∀ c, c.Inside data → Stays act c

variable {data : Bytes} {c c' : Cursor}

theorem Stays.bind {first : Scan α} {next : α → Scan β} (one : Stays first c)
    (two : ∀ a c', first c = .ok a c' → Stays (next a) c') : Stays (first >>= next) c := by
  refine ⟨fun ok => ?_, fun failed => ?_⟩
  · obtain ⟨a, middle, begun, ended⟩ := bindOk ok
    exact (one.ok begun).trans ((two a middle begun).ok ended)
  · rcases bindFailed failed with failed | ⟨a, middle, begun, failed⟩
    · exact one.error failed
    · exact (one.ok begun).trans ((two a middle begun).error failed)

theorem Safe.bind {first : Scan α} {next : α → Scan β} (one : Safe data first)
    (two : ∀ a, Safe data (next a)) : Safe data (first >>= next) :=
  fun c inside => (one c inside).bind fun a c' ok => two a c' (inside.onward ((one c inside).ok ok))

theorem doneSafe (a : α) : Safe data (pure a : Scan α) :=
  fun _ inside => ⟨fun ok => by cases ok; exact .here inside, nofun⟩

theorem failedSafe (e : IonError) : Safe data (throw e : Scan α) :=
  fun _ inside => ⟨nofun, fun failed => by cases failed; exact .here inside⟩

theorem placeSafe : Safe data get :=
  fun _ inside => ⟨fun ok => by cases ok; exact .here inside, nofun⟩

theorem requireSafe (condition : Prop) [Decidable condition] (e : IonError) :
    Safe data (require condition e) := by
  unfold require
  split
  · exact doneSafe ()
  · exact failedSafe e

theorem withinSafe (scope : Option Container) (offset length : Nat) :
    Safe data (within scope offset length) := by
  intro c inside
  refine ⟨fun ok => ?_, fun failed => ?_⟩
  · rw [(withinTakes ok).2]
    exact .here inside
  · unfold within at failed
    split at failed
    · contradiction
    · cases failed
      exact .here inside

theorem liftOk {act : Read α} {a : α} (ok : lift act c = .ok a c') : act c = .ok a c' := by
  cases found : act c <;> simp only [lift, EStateM.adaptExcept, found] at ok <;> cases ok
  rfl

theorem liftFailed {act : Read α} {e : IonError} (failed : lift act c = .error e c') :
    ∃ e', act c = .error e' c' := by
  cases found : act c <;> simp only [lift, EStateM.adaptExcept, found] at failed <;> cases failed
  exact ⟨_, rfl⟩

theorem peekSafe : Safe data (lift Cursor.peek) := by
  intro c inside
  refine ⟨fun ok => ?_, fun failed => ?_⟩
  · rw [(peekStays ok).1] at inside ⊢
    exact .here inside
  · obtain ⟨_, failed⟩ := liftFailed failed
    unfold Cursor.peek at failed
    split at failed
    · split at failed <;> cases failed
      exact .here inside
    · cases failed
      exact .here inside

theorem takeSafe (n : Nat) (meaning : Bytes → Except ReadError α) :
    Safe data (lift (Cursor.take n meaning)) := by
  intro c inside
  refine ⟨fun ok => ?_, fun failed => ?_⟩
  · have ok := liftOk ok
    unfold Cursor.take at ok
    split at ok
    · rename_i room
      split at ok <;> cases ok
      exact ⟨n, room, rfl⟩
    · contradiction
  · obtain ⟨_, failed⟩ := liftFailed failed
    unfold Cursor.take at failed
    split at failed
    · split at failed <;> cases failed
      exact .here inside
    · cases failed
      exact .here inside

theorem numberSafe {decode : Bytes → Except ReadError (α × Nat)}
    (used : ∀ {raw a n}, decode raw = .ok (a, n) → n ≤ raw.length) :
    Safe data (lift (Cursor.number decode)) := by
  intro c inside
  refine ⟨fun ok => ?_, fun failed => ?_⟩
  · have ok := liftOk ok
    unfold Cursor.number at ok
    split at ok <;> cases ok
    rename_i a n found
    have length := used found
    have sound := inside.sound
    rw [Cursor.Sound] at sound
    exact ⟨n, by omega, rfl⟩
  · obtain ⟨_, failed⟩ := liftFailed failed
    unfold Cursor.number at failed
    split at failed <;> cases failed
    exact .here inside

theorem varUIntSafe : Safe data (lift Cursor.varUInt) :=
  numberSafe fun found => (VarUInt.digitsUsed found).2

theorem varIntSafe : Safe data (lift Cursor.varInt) := by
  refine numberSafe fun {raw a n} found => ?_
  cases decoded : VarInt.decode raw with
  | error e => simp [decoded, bind, Except.bind] at found
  | ok read =>
    obtain ⟨negative, magnitude, used⟩ := read
    simp only [decoded, bind, Except.bind, pure, Except.pure, Except.ok.injEq, Prod.mk.injEq] at found
    rw [← found.2]
    exact (VarInt.decodeUsed decoded).2

theorem byteSafe : Safe data (lift Cursor.u8) := takeSafe 1 Cursor.first

theorem sidSafe : Safe data sid :=
  varUIntSafe.bind fun n => by
    split
    · exact doneSafe n
    · exact failedSafe _

theorem sidsUntilStep (stop : Nat) :
    sidsUntil stop = (do
      let c ← get
      if c.pos < stop then
        let s ← sid
        let rest ← sidsUntil stop
        return s :: rest
      else return []) := by
  funext c
  rw [sidsUntil, bindGot]
  split
  · simp only [bind, EStateM.bind]
    cases sid c with
    | error e c' => rfl
    | ok s c' =>
      dsimp only
      cases sidsUntil stop c' <;> rfl
  · rfl

theorem sidsUntilSafe (stop : Nat) : Safe data (sidsUntil stop) := by
  intro c inside
  induction length : c.rest.length using Nat.strongRecOn generalizing c with
  | ind n ih =>
    rw [sidsUntilStep]
    refine (placeSafe c inside).bind fun a c' ok => ?_
    cases ok
    split
    · have one := sidSafe c inside
      refine one.bind fun s c' found => ?_
      have shorter := sidShortens _ _ _ found
      have behind := inside.onward (one.ok found)
      have more := ih c'.rest.length (by omega) c' behind rfl
      exact more.bind fun rest c'' ok => doneSafe _ c'' (behind.onward (more.ok ok))
    · exact doneSafe [] c inside

theorem bodyLengthSafe (nibble : Nat) : Safe data (bodyLength nibble) := by
  unfold bodyLength
  split
  · exact varUIntSafe
  · exact doneSafe nibble

theorem valueLengthSafe (type : ValueType) (descriptor : UInt8) :
    Safe data (valueLength type descriptor) := by
  have body : Safe data (bodyLength (lowNibble descriptor)) := bodyLengthSafe _
  unfold valueLength
  dsimp only
  split
  · exact doneSafe 0
  · split
    · split
      · exact doneSafe 0
      · exact failedSafe _
    · split
      · exact failedSafe _
      · exact body
    · split
      · exact varUIntSafe
      · exact body
    · exact body

theorem valueSafe (scope : Option Container) (offset : Nat) (field : Option Nat)
    (annotations : List Nat) (descriptor : UInt8) :
    Safe data (value scope offset field annotations descriptor) := by
  unfold value
  split
  · exact failedSafe _
  · exact (valueLengthSafe _ _).bind fun length => (withinSafe _ _ length).bind fun _ =>
      placeSafe.bind fun _ => doneSafe _

theorem annotationsSafe (scope : Option Container) (offset stop : Nat) :
    Safe data (annotations scope offset stop) :=
  varUIntSafe.bind fun length => (withinSafe _ _ length).bind fun _ => placeSafe.bind fun _ =>
    (requireSafe _ _).bind fun _ => (sidsUntilSafe _).bind fun sids => placeSafe.bind fun _ =>
      (requireSafe _ _).bind fun _ => doneSafe sids

theorem wrappedSafe (scope : Option Container) (offset : Nat) (field : Option Nat)
    (descriptor : UInt8) : Safe data (wrapped scope offset field descriptor) :=
  (requireSafe _ _).bind fun _ => (bodyLengthSafe _).bind fun length =>
    (withinSafe _ _ length).bind fun _ => placeSafe.bind fun _ => (annotationsSafe _ _ _).bind fun _ =>
      byteSafe.bind fun _ => (requireSafe _ _).bind fun _ => (valueSafe _ _ _ _ _).bind fun h =>
        (requireSafe _ _).bind fun _ => doneSafe h

theorem fieldNameSafe (scope : Option Container) : Safe data (fieldName scope) := by
  unfold fieldName
  split
  · exact sidSafe.bind fun n => doneSafe _
  · exact doneSafe _

theorem paddingSafe (scope : Option Container) (offset : Nat) (descriptor : UInt8) :
    Safe data (padding scope offset descriptor) := by
  refine (bodyLengthSafe _).bind fun length c inside => ?_
  refine (withinSafe scope offset length c inside).bind fun _ c' checked => ?_
  obtain ⟨room, rfl⟩ := withinTakes checked
  exact ⟨fun ok => by cases ok; exact ⟨length, room, rfl⟩, nofun⟩

theorem itemSafe (scope : Option Container) : Safe data (item scope) := by
  refine placeSafe.bind fun c => (fieldNameSafe scope).bind fun field =>
    byteSafe.bind fun descriptor => ?_
  split
  · exact (paddingSafe _ _ _).bind fun _ => doneSafe none
  · split
    · exact (wrappedSafe _ _ _ _).bind fun h => doneSafe (some h)
    · exact (valueSafe _ _ _ _ _).bind fun h => doneSafe (some h)

theorem topItemSafe : Safe data topItem := by
  refine peekSafe.bind fun head => ?_
  split
  · exact (takeSafe 4 .ok).bind fun raw => (requireSafe _ _).bind fun _ => doneSafe TopItem.marker
  · refine (itemSafe none).bind fun found => ?_
    cases found with
    | none => exact doneSafe TopItem.padding
    | some h => exact doneSafe (TopItem.value h)

theorem anyItemSafe (scope : Option Container) : Safe data (anyItem scope) := by
  cases scope with
  | none => exact topItemSafe
  | some kind => exact (itemSafe (some kind)).bind fun found => doneSafe (TopItem.ofItem found)

end Scan

namespace Payload

open Scan

def decimalScan : Scan Decimal := do
  let e ← exponent
  let c ← coefficient
  return ⟨c, Int64.ofInt (-e)⟩

theorem decimalScanned (raw : Bytes) :
    decimal raw = if raw = [] then .ok .zero else runOn raw decimalScan := rfl

def timestampScan : Scan Timestamp := do
  let offset ← offset
  let year ← lift Cursor.varUInt
  let fields ← numbers 5
  let some precision := precisionOf? fields.length | throw .badTimestamp
  let (precision, nano) ← fraction precision
  let some utc := moment? year fields nano | throw .badTimestamp
  match Timestamp.of utc offset precision with
  | .ok t => return t
  | .error e => throw e

theorem timestampScanned (raw : Bytes) : timestamp raw = runOn raw timestampScan := rfl

end Payload

end Ion
