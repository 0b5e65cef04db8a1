import Ion.Proofs.Items
import Ion.Proofs.Slices
import Ion.IndexReader

/-! Windows at the places of a cursor. Where the cursor holds the bytes that the data has there, every read
by index finds them: it gives what the cursor gives, moves the window along with it, and meets no bound of
the data. -/
namespace Ion

namespace Bytes

variable {data more : Bytes} {b : UInt8} {pos stop : Nat}

theorem sliceIff {raw : Bytes} : data.slice? pos stop = some raw ↔
    (pos ≤ stop ∧ stop ≤ data.length) ∧ (data.take stop).drop pos = raw := by
  simp only [slice?, Option.ite_none_right_eq_some, Option.some.injEq]

theorem sliceNothing (slice : data.slice? pos stop = some []) : pos = stop := by
  obtain ⟨⟨order, bound⟩, rest⟩ := sliceIff.mp slice
  have length := congrArg List.length rest
  rw [List.length_drop, List.length_take, List.length_nil] at length
  omega

theorem sliceFirst (slice : data.slice? pos stop = some (b :: more)) :
    pos < stop ∧ data[pos]? = some b ∧ data.slice? (pos + 1) stop = some more := by
  obtain ⟨⟨order, bound⟩, rest⟩ := sliceIff.mp slice
  have length := congrArg List.length rest
  rw [List.length_drop, List.length_take, List.length_cons] at length
  have inside : pos < stop := by omega
  refine ⟨inside, ?_, sliceIff.mpr ⟨⟨inside, bound⟩, ?_⟩⟩
  · have first := congrArg (·[0]?) rest
    rwa [List.getElem?_drop, Nat.add_zero, List.getElem?_take_of_lt inside] at first
  · rw [← List.drop_drop, rest]
    rfl

end Bytes

def ValueHeader.of (h : Header) : ValueHeader :=
  ⟨h.type, highNibble h.descriptor, lowNibble h.descriptor, h.isNull, h.field, h.annotations, h.start.pos,
    h.after.pos⟩

namespace Window

def along (data : Bytes) (c : Cursor) : Window := ⟨data, c.pos, c.stop⟩

variable {data : Bytes} {c c' : Cursor}

/-- Both ways of reading from `c` end alike: with results that belong together and the window along with the
cursor, or with the same cause. -/
inductive Ends (data : Bytes) (related : β → α → Prop) (c : Cursor) :
    EStateM.Result (Fault ε) Window β → EStateM.Result ε Cursor α → Prop
  | ok {b a c'} (results : related b a) (onward : c.Onward c') :
      Ends data related c (.ok b (along data c')) (.ok a c')
  | failed (cause : ε) (c' : Cursor) :
      Ends data related c (.error (.failed cause) (along data c')) (.error cause c')

def Mirrors (data : Bytes) (related : β → α → Prop) (act : EStateM (Fault ε) Window β)
    (plain : EStateM ε Cursor α) : Prop :=
  ∀ c, c.Inside data → Ends data related c (act (along data c)) (plain c)

section

variable {related : β → α → Prop} {act : EStateM (Fault ε) Window β} {plain : EStateM ε Cursor α}

theorem Ends.began {first : EStateM.Result (Fault ε) Window β} {second : EStateM.Result ε Cursor α}
    (onward : c.Onward c') (ends : Ends data related c' first second) : Ends data related c first second := by
  cases ends with
  | ok results later => exact .ok results (onward.trans later)
  | failed cause stop => exact .failed cause stop

theorem Ends.bind {related' : δ → γ → Prop} {next : β → EStateM (Fault ε) Window δ}
    {plainNext : α → EStateM ε Cursor γ} (inside : c.Inside data)
    (first : Ends data related c (act (along data c)) (plain c))
    (more : ∀ b a c', related b a → plain c = .ok a c' → c'.Inside data →
      Ends data related' c' (next b (along data c')) (plainNext a c')) :
    Ends data related' c ((act >>= next) (along data c)) ((plain >>= plainNext) c) := by
  simp only [Bind.bind, EStateM.bind]
  generalize act (along data c) = r at first
  generalize plain c = q at first more
  cases first with
  | ok results onward => exact (more _ _ _ results rfl (inside.onward onward)).began onward
  | failed cause c' => exact .failed cause c'

namespace Mirrors

theorem bind {related' : δ → γ → Prop} {next : β → EStateM (Fault ε) Window δ}
    {plainNext : α → EStateM ε Cursor γ} (first : Mirrors data related act plain)
    (more : ∀ b a, related b a → Mirrors data related' (next b) (plainNext a)) :
    Mirrors data related' (act >>= next) (plain >>= plainNext) :=
  fun c inside => (first c inside).bind inside fun b a c' results _ inside => more b a results c' inside

theorem pure {b : β} {a : α} (results : related b a) :
    Mirrors data related (Pure.pure b : EStateM (Fault ε) Window β) (Pure.pure a : EStateM ε Cursor α) :=
  fun _ inside => .ok results (.here inside)

theorem throw (cause : ε) :
    Mirrors data related (MonadExcept.throw (Fault.failed cause)) (MonadExcept.throw cause) :=
  fun c _ => .failed cause c

theorem finds {act : EStateM (Fault ε) Window α} {a : α} (mirrors : Mirrors data Eq act plain)
    (inside : c.Inside data) (ok : plain c = .ok a c') : act (along data c) = .ok a (along data c') := by
  have ends := mirrors c inside
  rw [ok] at ends
  generalize act (along data c) = r at ends ⊢
  cases ends with
  | ok results onward => rw [results]

theorem either {condition : Prop} [Decidable condition] {other : EStateM (Fault ε) Window β}
    {plainOther : EStateM ε Cursor α} (first : Mirrors data related act plain)
    (second : Mirrors data related other plainOther) :
    Mirrors data related (if condition then act else other) (if condition then plain else plainOther) := by
  split
  · exact first
  · exact second

end Mirrors

end

theorem liftRan {act : Ion.Read α} {a : α} (ok : act c = .ok a c') : Ion.Scan.lift act c = .ok a c' := by
  simp only [Ion.Scan.lift, EStateM.adaptExcept, ok]

theorem readOnward {act : Ion.Read α} {a : α} (safe : Ion.Scan.Safe data (Ion.Scan.lift act))
    (inside : c.Inside data) (ok : act c = .ok a c') : c.Onward c' :=
  (safe c inside).ok (liftRan ok)

theorem checkEnds {related : β → α → Prop} {next : Unit → Read β} {n : Nat}
    {plain : EStateM.Result ReadError Cursor α}
    (short : ¬c.pos + n ≤ c.stop → plain = .error .endOfInput c)
    (met : c.pos + n ≤ c.stop → Ends data related c (next () (along data c)) plain) :
    Ends data related c ((check n >>= next) (along data c)) plain := by
  by_cases room : c.pos + n ≤ c.stop
  · have checked : check n (along data c) = .ok () (along data c) := if_pos room
    rw [bindRuns checked]
    exact met room
  · have checked : check n (along data c) = .error (.failed .endOfInput) (along data c) := if_neg room
    rw [bindHalts checked, short room]
    exact .failed _ c

theorem byteAhead (inside : c.Inside data) (room : c.pos + 1 ≤ c.stop) :
    ∃ b more, c.rest = b :: more ∧ byte (along data c).pos (along data c) = .ok b (along data c) ∧
      data.slice? (c.pos + 1) c.stop = some more := by
  have slice : data.slice? c.pos c.stop = some c.rest := inside
  cases rest : c.rest with
  | nil =>
    rw [rest] at slice
    have ended := Bytes.sliceNothing slice
    omega
  | cons b more =>
    rw [rest] at slice
    obtain ⟨-, found, behind⟩ := Bytes.sliceFirst slice
    refine ⟨b, more, rfl, ?_, behind⟩
    simp only [byte, along, found]

theorem peekMirrors : Mirrors data Eq peek Cursor.peek := by
  intro c inside
  refine checkEnds (fun short => if_neg short) fun room => ?_
  obtain ⟨b, more, rest, found, -⟩ := byteAhead inside room
  change Ends data Eq c (byte (along data c).pos (along data c)) (Cursor.peek c)
  simp only [found, Cursor.peek, if_pos room, rest, Cursor.first]
  exact .ok rfl (.here inside)

theorem bytesMirrors (n : Nat) : Mirrors data Eq (bytes n) (Cursor.bytes n) := by
  intro c inside
  refine checkEnds (fun short => if_neg short) fun room => ?_
  have found : (slice (along data c).pos ((along data c).pos + n) : Read Bytes) (along data c) =
      .ok (c.rest.take n) (along data c) := by
    have part : data.slice? c.pos (c.pos + n) = some (c.rest.take n) := inside.part room
    simp only [slice, along, part]
  have taken : Cursor.bytes n c = .ok (c.rest.take n) (c.advance n) := by
    simp only [Cursor.bytes, Cursor.take, if_pos room]
  rw [taken, bindGot, bindRuns found]
  exact .ok rfl ⟨n, room, rfl⟩

theorem u8Mirrors : Mirrors data Eq u8 Cursor.u8 := by
  intro c inside
  refine checkEnds (fun short => if_neg short) fun room => ?_
  obtain ⟨b, more, rest, found, -⟩ := byteAhead inside room
  have taken : Cursor.u8 c = .ok b (c.advance 1) := by
    simp only [Cursor.u8, Cursor.take, if_pos room, rest]
    rfl
  rw [taken, bindGot, bindRuns found]
  exact .ok rfl ⟨1, room, rfl⟩

theorem intTaken (c : Cursor) (n : Nat) :
    Cursor.int n c = (do return Cursor.signMagnitude (← Cursor.bytes n) : Ion.Read (Bool × Bytes)) c := by
  simp only [Cursor.int, Cursor.bytes, Cursor.take, Bind.bind, EStateM.bind]
  split <;> rfl

theorem intMirrors (n : Nat) : Mirrors data Eq (int n) (Cursor.int n) := by
  intro c inside
  rw [intTaken]
  exact (bytesMirrors n).bind (fun raw _ same => .pure (same ▸ rfl)) c inside

theorem digitsAhead {w : Window} {pos : Nat} {rest : Bytes} (slice : w.data.slice? pos w.stop = some rest)
    (acc : Nat) :
    w.digits pos acc = match VarUInt.digits acc rest with
      | .ok (n, used) => .ok (n, pos + used)
      | .error e => .error (.failed e) := by
  induction rest generalizing pos acc with
  | nil =>
    have ended := Bytes.sliceNothing slice
    rw [digits, if_neg (by omega)]
    rfl
  | cons b more ih =>
    obtain ⟨inside, found, behind⟩ := Bytes.sliceFirst slice
    rw [digits, if_pos inside, found, VarUInt.digits]
    dsimp only
    split
    · rfl
    · split
      · rfl
      · rw [ih behind]
        cases VarUInt.digits (acc * 128 + b.toNat % 128) more with
        | error e => rfl
        | ok read => exact congrArg Except.ok (Prod.ext rfl (by dsimp only; omega))

theorem numberAhead {skipped : Nat} {rest : Bytes} (slice : data.slice? (c.pos + skipped) c.stop = some rest)
    (acc : Nat) :
    number ((along data c).pos + skipped) acc (along data c) = match VarUInt.digits acc rest with
      | .ok (n, used) => .ok n (along data (c.advance (skipped + used)))
      | .error e => .error (.failed e) (along data c) := by
  have digits : (along data c).digits ((along data c).pos + skipped) acc = _ := digitsAhead slice acc
  rw [number, digits]
  cases VarUInt.digits acc rest with
  | error e => rfl
  | ok read => simp only [along, Cursor.advance, Nat.add_assoc]

theorem varUIntMirrors : Mirrors data Eq varUInt Cursor.varUInt := by
  intro c inside
  have here : data.slice? (c.pos + 0) c.stop = some c.rest := inside
  have read : varUInt (along data c) = _ := numberAhead here 0
  cases decoded : VarUInt.digits 0 c.rest with
  | error e =>
    have plain : Cursor.varUInt c = .error e c := by
      simp only [Cursor.varUInt, Cursor.number, VarUInt.decode, decoded]
    rw [read, decoded, plain]
    exact .failed e c
  | ok found =>
    have plain : Cursor.varUInt c = .ok found.1 (c.advance (0 + found.2)) := by
      simp only [Cursor.varUInt, Cursor.number, VarUInt.decode, decoded, Nat.zero_add]
    rw [read, decoded, plain]
    exact .ok rfl (readOnward Ion.Scan.varUIntSafe inside plain)

theorem varIntAhead {b : UInt8} {more : Bytes} (rest : c.rest = b :: more) :
    Cursor.varInt c =
      if 128 ≤ b.toNat then .ok (b.toNat / 64 % 2 == 1, b.toNat % 64) (c.advance 1)
      else
        match VarUInt.digits (b.toNat % 64) more with
        | .ok (n, used) => .ok (b.toNat / 64 % 2 == 1, n) (c.advance (1 + used))
        | .error e => .error e c := by
  by_cases last : 128 ≤ b.toNat
  · simp only [Cursor.varInt, Cursor.number, rest, VarInt.decode, if_pos last]
    rfl
  · simp only [Cursor.varInt, Cursor.number, rest, VarInt.decode, if_neg last]
    cases VarUInt.digits (b.toNat % 64) more with
    | error e => rfl
    | ok taken =>
      simp only [Bind.bind, Except.bind, Nat.add_comm 1]
      rfl

theorem varIntMirrors : Mirrors data Eq varInt Cursor.varInt := by
  intro c inside
  have onward {a c'} (ok : Cursor.varInt c = .ok a c') : c.Onward c' := readOnward Ion.Scan.varIntSafe inside ok
  by_cases room : c.pos + 1 ≤ c.stop
  · obtain ⟨b, more, rest, found, behind⟩ := byteAhead inside room
    have first : peek (along data c) = .ok b (along data c) := by
      rw [peek, bindRuns (show check 1 (along data c) = .ok () (along data c) from if_pos room)]
      exact found
    have digits := numberAhead behind (b.toNat % 64)
    have plain := varIntAhead rest
    rw [varInt, bindRuns first, bindGot]
    split at plain <;> rename_i last
    · rw [if_pos last, plain]
      exact .ok rfl (onward plain)
    · rw [if_neg last]
      cases decoded : VarUInt.digits (b.toNat % 64) more with
      | error e =>
        rw [decoded] at digits plain
        rw [bindHalts digits, plain]
        exact .failed e c
      | ok taken =>
        rw [decoded] at digits plain
        rw [bindRuns digits, plain]
        exact .ok rfl (onward plain)
  · have ended : c.rest = [] := by
      have sound : _ = _ := inside.sound
      exact List.length_eq_zero_iff.mp (by omega)
    have plain : Cursor.varInt c = .error .endOfInput c := by
      simp only [Cursor.varInt, Cursor.number, ended, VarInt.decode]
      rfl
    have first : peek (along data c) = .error (.failed .endOfInput) (along data c) := bindHalts (if_neg room)
    rw [varInt, bindHalts first, plain]
    exact .failed _ c

theorem liftMirrors {act : Read α} {plain : Ion.Read α} (mirrors : Mirrors data Eq act plain) :
    Mirrors data Eq (lift act) (Ion.Scan.lift plain) := by
  intro c inside
  have ends := mirrors c inside
  simp only [lift, Ion.Scan.lift, EStateM.adaptExcept]
  generalize act (along data c) = r at ends
  generalize plain c = q at ends
  cases ends with
  | ok results onward => exact .ok results onward
  | failed cause c' => exact .failed _ c'

theorem requireMirrors (condition : Prop) [Decidable condition] (e : IonError) :
    Mirrors data Eq (require condition e) (Ion.Scan.require condition e) :=
  .either (.pure rfl) (.throw e)

theorem sidMirrors : Mirrors data Eq sid Ion.Scan.sid :=
  (liftMirrors varUIntMirrors).bind fun _ _ same => same ▸ .either (.pure rfl) (.throw _)

theorem sidsUntilStep (stop : Nat) :
    sidsUntil stop = (do
      let w ← get
      if w.pos < stop then
        let n ← sid
        let rest ← sidsUntil stop
        return n :: rest
      else return []) := by
  funext w
  rw [sidsUntil, bindGot]
  split
  · simp only [Bind.bind, EStateM.bind]
    cases sid w with
    | error e w' => rfl
    | ok n w' =>
      dsimp only
      cases sidsUntil stop w' <;> rfl
  · rfl

theorem sidsUntilMirrors (stop : Nat) : Mirrors data Eq (sidsUntil stop) (Ion.Scan.sidsUntil stop) := by
  intro c inside
  induction length : c.rest.length using Nat.strongRecOn generalizing c with
  | ind n ih =>
    rw [sidsUntilStep, Ion.Scan.sidsUntilStep, bindGot, Ion.bindGot]
    change Ends data Eq c ((if c.pos < stop then _ else _ : Scan (List Nat)) (along data c)) _
    split
    · refine (sidMirrors c inside).bind inside fun s _ c' same found inside' => ?_
      have shorter := Ion.Scan.sidShortens _ _ _ found
      refine (ih c'.rest.length (by omega) c' inside' rfl).bind inside' fun rest _ c'' same' _ inside'' => ?_
      rw [same, same']
      exact .ok rfl (.here inside'')
    · exact .ok rfl (.here inside)

theorem bodyLengthMirrors (lengthCode : Nat) :
    Mirrors data Eq (bodyLength lengthCode) (Ion.Scan.bodyLength lengthCode) :=
  .either (liftMirrors varUIntMirrors) (.pure rfl)

theorem valueLengthMirrors (type : ValueType) (descriptor : UInt8) :
    Mirrors data Eq (valueLength type (highNibble descriptor) (lowNibble descriptor))
      (Ion.Scan.valueLength type descriptor) := by
  have body : Mirrors data Eq (bodyLength (lowNibble descriptor)) (Ion.Scan.bodyLength (lowNibble descriptor)) :=
    bodyLengthMirrors _
  unfold valueLength Ion.Scan.valueLength
  refine .either (.pure rfl) ?_
  cases type with
  | bool => exact .either (.pure rfl) (.throw _)
  | int => exact .either (.throw _) body
  | struct => exact .either (liftMirrors varUIntMirrors) body
  | null | float | decimal | timestamp | symbol | string | clob | blob | list | sexp => exact body

variable {kind : Option Container} {offset : Nat}

theorem endEnds {related : β → α → Prop} {next : Nat → Scan β} {length : Nat} {plainNext : Unit → Ion.Scan α}
    (more : c.pos + length ≤ c.stop →
      Ends data related c (next (c.pos + length) (along data c)) (plainNext () c)) :
    Ends data related c ((endOf (kind.map Container.type) offset length >>= next) (along data c))
      ((Ion.Scan.within kind offset length >>= plainNext) c) := by
  by_cases room : c.pos + length ≤ c.stop
  · have ends : endOf (kind.map Container.type) offset length (along data c) =
        .ok (c.pos + length) (along data c) :=
      if_pos room
    have fits : Ion.Scan.within kind offset length c = .ok () c := if_pos room
    rw [bindRuns ends, bindRuns fits]
    exact more room
  · have ends : endOf (kind.map Container.type) offset length (along data c) =
        .error (.failed (Ion.Scan.overrun kind offset)) (along data c) := by
      cases kind <;> exact if_neg room
    have fits : Ion.Scan.within kind offset length c = .error (Ion.Scan.overrun kind offset) c := if_neg room
    rw [bindHalts ends, bindHalts fits]
    exact .failed _ c

theorem valueMirrors (field : Option Nat) (annotations : List Nat) (descriptor : UInt8) :
    Mirrors data (fun b h => b = .of h) (value (kind.map Container.type) offset field annotations descriptor)
      (Ion.Scan.value kind offset field annotations descriptor) := by
  unfold value Ion.Scan.value
  dsimp only
  cases ValueType.ofCode? (highNibble descriptor) with
  | none => exact .throw _
  | some type =>
    intro c inside
    refine (valueLengthMirrors type descriptor c inside).bind inside fun length _ c' same _ inside' => ?_
    rw [← same, bindGot]
    exact endEnds fun room => .ok rfl (.here inside')

theorem annotationsMirrors (stop : Nat) :
    Mirrors data Eq (annotations (kind.map Container.type) offset stop)
      (Ion.Scan.annotations kind offset stop) := by
  intro c inside
  refine (liftMirrors varUIntMirrors c inside).bind inside fun length _ c' same _ inside' => ?_
  rw [← same]
  refine endEnds fun room => ?_
  rw [Ion.bindGot]
  refine (requireMirrors _ _).bind (fun _ _ _ => ?_) c' inside'
  refine (sidsUntilMirrors _).bind fun sids _ same => ?_
  rw [← same]
  exact fun c'' inside'' => (requireMirrors _ _).bind (fun _ _ _ => .pure rfl) c'' inside''

theorem wrappedMirrors (field : Option Nat) (descriptor : UInt8) :
    Mirrors data (fun b h => b = .of h) (wrapped (kind.map Container.type) offset field descriptor)
      (Ion.Scan.wrapped kind offset field descriptor) := by
  refine (requireMirrors _ _).bind fun _ _ _ => ?_
  intro c inside
  refine (bodyLengthMirrors _ c inside).bind inside fun length _ c' same _ inside' => ?_
  rw [← same]
  refine endEnds fun room => ?_
  rw [Ion.bindGot]
  refine (annotationsMirrors _).bind (fun sids _ same => ?_) c' inside'
  rw [← same]
  refine (liftMirrors u8Mirrors).bind fun inner _ same => ?_
  rw [← same]
  refine (requireMirrors _ _).bind fun _ _ _ => (valueMirrors field sids inner).bind fun b h same => ?_
  rw [same]
  exact (requireMirrors _ _).bind fun _ _ _ => .pure rfl

theorem fieldNameMirrors : Mirrors data Eq (fieldName (kind.map Container.type)) (Ion.Scan.fieldName kind) := by
  have named : Mirrors data Eq (do return some (← sid)) (do return some (← Ion.Scan.sid)) :=
    sidMirrors.bind fun n _ same => .pure (congrArg some same)
  unfold fieldName Ion.Scan.fieldName
  obtain _ | _ | _ | _ := kind
  · exact .pure rfl
  · exact .pure rfl
  · exact .pure rfl
  · exact named

theorem paddingMirrors (descriptor : UInt8) :
    Mirrors data Eq (padding (kind.map Container.type) offset descriptor)
      (Ion.Scan.padding kind offset descriptor) := by
  intro c inside
  refine (bodyLengthMirrors _ c inside).bind inside fun length _ c' same _ inside' => ?_
  rw [← same]
  refine endEnds fun room => ?_
  have behind : c'.Onward (c'.advance length) := ⟨length, room, rfl⟩
  exact .ok rfl behind

theorem itemMirrors (kind : Option Container) :
    Mirrors data (fun b h => b = h.map .of) (item (kind.map Container.type)) (Ion.Scan.item kind) := by
  intro c inside
  rw [item, Ion.Scan.item, bindGot, Ion.bindGot]
  refine (fieldNameMirrors.bind fun field _ same => ?_) c inside
  rw [← same]
  refine (liftMirrors u8Mirrors).bind fun descriptor _ same => ?_
  rw [← same]
  refine .either ((paddingMirrors descriptor).bind fun _ _ _ => .pure rfl) (.either ?_ ?_)
  · exact (wrappedMirrors field descriptor).bind fun b h same => .pure (congrArg some same)
  · exact (valueMirrors field [] descriptor).bind fun b h same => .pure (congrArg some same)

inductive Settles : EStateM.Result (Fault ε) Window α → EStateM.Result ε Cursor α → Prop
  | ok (a : α) (w : Window) (c : Cursor) : Settles (.ok a w) (.ok a c)
  | failed (cause : ε) (w : Window) (c : Cursor) : Settles (.error (.failed cause) w) (.error cause c)

section

variable {act : EStateM (Fault ε) Window α} {plain : EStateM ε Cursor α}

theorem Mirrors.leads {next : α → EStateM (Fault ε) Window β} {plainNext : α → EStateM ε Cursor β}
    (first : Mirrors data Eq act plain) (inside : c.Inside data)
    (more : ∀ a c', c.Onward c' → c'.Inside data → Settles (next a (along data c')) (plainNext a c')) :
    Settles ((act >>= next) (along data c)) ((plain >>= plainNext) c) := by
  have ends := first c inside
  simp only [Bind.bind, EStateM.bind]
  generalize act (along data c) = r at ends
  generalize plain c = q at ends
  cases ends with
  | ok results onward =>
    rw [results]
    exact more _ _ onward (inside.onward onward)
  | failed cause c' => exact .failed cause _ _

theorem Settles.bind {w : Window} {next : α → EStateM (Fault ε) Window β} {plainNext : α → EStateM ε Cursor β}
    (first : Settles (act w) (plain c)) (more : ∀ a w c, Settles (next a w) (plainNext a c)) :
    Settles ((act >>= next) w) ((plain >>= plainNext) c) := by
  simp only [Bind.bind, EStateM.bind]
  generalize act w = r at first
  generalize plain c = q at first
  cases first with
  | ok a w' c' => exact more a w' c'
  | failed cause w' c' => exact .failed cause w' c'

theorem Settles.runs {raw : Bytes} {act : Scan α} {plain : Ion.Scan α}
    (settles : Settles (act (.ofBytes raw)) (plain (.ofBytes raw))) :
    runOn raw act = (Ion.Scan.runOn raw plain).mapError .failed := by
  rw [runOn, Ion.Scan.runOn]
  generalize act (.ofBytes raw) = r at settles
  generalize plain (.ofBytes raw) = q at settles
  cases settles <;> rfl

end

theorem exponentMirrors : Mirrors data Eq exponent Payload.exponent :=
  (liftMirrors varIntMirrors).bind fun _ _ same => same ▸ .either (.pure rfl) (.throw _)

theorem offsetMirrors : Mirrors data Eq offsetMinutes Payload.offset :=
  (liftMirrors varIntMirrors).bind fun _ _ same =>
    same ▸ .either (.pure rfl) (.either (.pure rfl) (.throw _))

theorem sizeNothing (c : Cursor) : (along data c).size = 0 ↔ c.atEnd = true := by
  simp only [size, along, Cursor.atEnd, decide_eq_true_eq]
  omega

theorem numbersMirrors (limit : Nat) : Mirrors data Eq (numbers limit) (Payload.numbers limit) := by
  induction limit with
  | zero => exact .pure rfl
  | succ limit ih =>
    intro c inside
    rw [numbers, Payload.numbers, bindGot, Ion.bindGot]
    by_cases ended : c.atEnd = true
    · rw [if_pos ended, if_pos ((sizeNothing c).mpr ended)]
      exact .ok rfl (.here inside)
    · rw [if_neg ended, if_neg (mt (sizeNothing c).mp ended)]
      refine ((liftMirrors varUIntMirrors).bind fun n _ same => ?_) c inside
      exact ih.bind fun rest _ same' => .pure (by rw [same, same'])

theorem intWhole (sound : c.Sound) :
    Cursor.int c.rest.length c = .ok (Cursor.signMagnitude c.rest) (c.advance c.rest.length) := by
  rw [Cursor.Sound] at sound
  simp only [Cursor.int, Cursor.take, if_pos (Nat.le_of_eq sound), List.take_length]

theorem coefficientSettles (inside : c.Inside data) (whole : c.stop = data.length) :
    Settles (coefficient (along data c)) (Payload.coefficient c) := by
  have sound : _ = _ := inside.sound
  have left : c.remaining = c.rest.length := by rw [Cursor.remaining]; omega
  have rest : (slice (along data c).pos (along data c).data.length : Scan Bytes) (along data c) =
      .ok c.rest (along data c) := by
    have tail : data.slice? c.pos data.length = some c.rest := whole ▸ inside
    simp only [slice, along, tail]
  have taken : lift (int c.rest.length) (.ofBytes c.rest) = .ok (Cursor.signMagnitude c.rest) _ :=
    (liftMirrors (intMirrors _)).finds (Cursor.ofBytesInside c.rest)
      (liftRan (intWhole (Cursor.ofBytesSound c.rest)))
  rw [coefficient, bindGot, bindRuns rest, runOn, taken, Payload.coefficient, bindGot, left,
    bindRuns (liftRan (intWhole sound))]
  exact .ok _ _ _

theorem decimalSettles (raw : Bytes) : decimal raw = (Payload.decimal raw).mapError .failed := by
  unfold decimal Payload.decimal
  split
  · rfl
  · refine Settles.runs (exponentMirrors.leads (Cursor.ofBytesInside raw) fun e c onward inside => ?_)
    refine (coefficientSettles inside onward.stop).bind fun _ _ _ => .ok _ _ _

theorem fractionSettles (inside : c.Inside data) (whole : c.stop = data.length) (precision : Precision) :
    Settles (fraction precision (along data c)) (Payload.fraction precision c) := by
  rw [fraction, Payload.fraction, bindGot, Ion.bindGot]
  by_cases ended : c.atEnd = true
  · rw [if_pos ended, if_pos ((sizeNothing c).mpr ended)]
    exact .ok _ _ _
  · rw [if_neg ended, if_neg (mt (sizeNothing c).mp ended)]
    refine exponentMirrors.leads inside fun e c' onward inside' => ?_
    refine (coefficientSettles inside' (onward.stop.trans whole)).bind fun n _ _ => ?_
    cases Payload.fractionOf e n with
    | ok found => exact .ok _ _ _
    | error e => exact .failed _ _ _

theorem timestampSettles (raw : Bytes) : timestamp raw = (Payload.timestamp raw).mapError .failed := by
  refine Settles.runs (offsetMirrors.leads (Cursor.ofBytesInside raw) fun offset c onward inside => ?_)
  refine (liftMirrors varUIntMirrors).leads inside fun year c' onward' inside' => ?_
  refine (numbersMirrors 5).leads inside' fun fields c'' onward'' inside'' => ?_
  have whole := (onward.trans (onward'.trans onward'')).stop
  cases Payload.precisionOf? fields.length with
  | none => exact .failed _ _ _
  | some precision =>
    refine (fractionSettles inside'' whole precision).bind fun found _ _ => ?_
    obtain ⟨precision, nano⟩ := found
    dsimp only
    cases Payload.moment? year fields nano with
    | none => exact .failed _ _ _
    | some utc =>
      dsimp only
      cases Timestamp.of utc offset precision with
      | ok t => exact .ok _ _ _
      | error e => exact .failed _ _ _

end Window

theorem mapMapped (first : Except ε α) (f : α → β) (g : ε → ε') :
    (first.mapError g).map f = (first.map f).mapError g := by
  cases first <;> rfl

theorem Header.decodeSame (h : Header) :
    (ValueHeader.of h).decode h.type h.payload = h.scalar.mapError .failed := by
  unfold ValueHeader.decode Header.scalar
  cases h.type with
  | decimal => rw [Window.decimalSettles, mapMapped]
  | timestamp => rw [Window.timestampSettles, mapMapped]
  | null | bool | int | float | symbol | string | clob | blob | list | sexp | struct => rfl

end Ion
