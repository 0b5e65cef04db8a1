import Ion.Proofs.MachineTimestamps
import Ion.Proofs.TimestampBodies

/-! Bodies of timestamps on machine integers. Numbers of a body are below the power of two their register ends
at, and what is narrowed, negated or scaled is refused before it could leave its width. -/
namespace Ion

open Register (Gives)

namespace MachineScan

inductive Ends (related : β → α → Prop) :
    EStateM.Result Trap Cursor β → EStateM.Result IonError Cursor α → Prop
  | ok {b a c} (results : related b a) : Ends related (.ok b c) (.ok a c)
  | refused (cause : IonError) (c : Cursor) : Ends related (.error (.refused cause) c) (.error cause c)

def Tracks (related : β → α → Prop) (act : MachineScan β) (plain : Scan α) : Prop :=
  ∀ c, Ends related (act c) (plain c)

end MachineScan

open MachineScan

namespace MachineScan.Tracks

variable {related : β → α → Prop} {act : MachineScan β} {plain : Scan α}

theorem bind {related' : δ → γ → Prop} {next : β → MachineScan δ} {plainNext : α → Scan γ}
    (first : Tracks related act plain) (more : ∀ b a, related b a → Tracks related' (next b) (plainNext a)) :
    Tracks related' (act >>= next) (plain >>= plainNext) := by
  intro c
  have ends := first c
  simp only [Bind.bind, EStateM.bind]
  generalize act c = r at ends
  generalize plain c = q at ends
  cases ends with
  | ok results => exact more _ _ results _
  | refused cause c' => exact .refused cause c'

theorem got {next : Cursor → MachineScan β} {plainNext : Cursor → Scan α}
    (each : ∀ c, Ends related (next c c) (plainNext c c)) : Tracks related (get >>= next) (get >>= plainNext) :=
  each

theorem pure {b : β} {a : α} (results : related b a) : Tracks related (Pure.pure b) (Pure.pure a) :=
  fun _ => .ok results

theorem read (plain : Scan α) : Tracks Eq (MachinePayload.read plain) plain := by
  intro c
  simp only [MachinePayload.read, EStateM.adaptExcept]
  cases plain c with
  | ok a c' => exact .ok rfl
  | error cause c' => exact .refused cause c'

theorem check {work : Checked β} (answer : Except IonError α) (agree : Agree related work (Checked.of answer))
    (returns : ∀ a, answer = .ok a → plain = Pure.pure a)
    (throws : ∀ e, answer = .error e → plain = throw e) :
    Tracks related (MachinePayload.check work) plain := by
  intro c
  cases answer with
  | ok a =>
    rw [returns a rfl]
    cases agree with
    | ok results => exact .ok results
  | error cause =>
    rw [throws cause rfl]
    cases agree
    exact .refused cause c

theorem settles {related' : δ → α → Prop} {next : β → MachineScan δ} {post : α → Prop}
    (posts : ∀ c a c', plain c = .ok a c' → post a) (first : Tracks related act plain)
    (more : ∀ b a c, related b a → post a → ∃ d, next b c = .ok d c ∧ related' d a) :
    Tracks related' (act >>= next) plain := by
  intro c
  have ends := first c
  have known := posts c
  simp only [Bind.bind, EStateM.bind]
  generalize act c = r at ends
  generalize plain c = q at ends known
  cases ends with
  | @ok b a c' results =>
    obtain ⟨d, ran, results'⟩ := more b a c' results (known a c' rfl)
    simp only [ran]
    exact .ok results'
  | refused cause c' => exact .refused cause c'

theorem runs (tracks : Tracks related act plain) (raw : Bytes) :
    Agree related (MachinePayload.runOn raw act) (Checked.of (Scan.runOn raw plain)) := by
  have ends := tracks (.ofBytes raw)
  rw [MachinePayload.runOn, Scan.runOn]
  generalize act (.ofBytes raw) = r at ends
  generalize plain (.ofBytes raw) = q at ends
  cases ends with
  | ok results => exact .ok results
  | refused cause c => exact .error _

end MachineScan.Tracks

namespace Scan

theorem numberFound {decode : Bytes → Except ReadError (α × Nat)} {c c' : Cursor} {a : α}
    (ok : lift (Cursor.number decode) c = .ok a c') : ∃ used, decode c.rest = .ok (a, used) := by
  cases read : decode c.rest with
  | error e => simp [lift, EStateM.adaptExcept, Cursor.number, read] at ok
  | ok found =>
    simp only [lift, EStateM.adaptExcept, Cursor.number, read, EStateM.Result.ok.injEq] at ok
    exact ⟨found.2, by rw [← ok.1]⟩

theorem varUIntWord (c : Cursor) (n : Nat) (c' : Cursor) (ok : lift Cursor.varUInt c = .ok n c') :
    n < 2 ^ 64 := by
  obtain ⟨used, read⟩ := numberFound ok
  exact (Grammar.digitsTaken read).2

theorem varIntWord (c : Cursor) (found : Bool × Nat) (c' : Cursor) (ok : lift Cursor.varInt c = .ok found c') :
    found.2 < 2 ^ 64 := by
  obtain ⟨used, read⟩ := numberFound ok
  obtain ⟨⟨negative, n, taken⟩, decoded, read⟩ := exceptOk read
  cases read
  exact (Grammar.signedTaken decoded).2

end Scan

theorem Width.wordHolds {n : Nat} (word : n < 2 ^ 64) : Width.unsigned64.Holds n := by
  simp only [Width.Holds, Width.unsigned64]
  omega

namespace MachinePayload

variable {magnitude : Register .unsigned64} {n : Nat}

theorem varUIntTracks :
    Tracks (fun (b : Register .unsigned64) (n : Nat) => b.value = n) varUInt (Scan.lift Cursor.varUInt) := by
  refine .settles Scan.varUIntWord (.read _) ?_
  rintro _ n c rfl word
  obtain ⟨b, ran, value⟩ := Register.exactlyGives (Width.wordHolds word)
  exact ⟨b, by rw [ran]; rfl, value⟩

theorem varIntTracks :
    Tracks (fun b a => b.1 = a.1 ∧ b.2.value = a.2) varInt (Scan.lift Cursor.varInt) := by
  refine .settles Scan.varIntWord (.read _) ?_
  rintro _ ⟨negative, n⟩ c rfl word
  obtain ⟨b, ran, value⟩ := Register.exactlyGives (Width.wordHolds word)
  simp only [ran]
  exact ⟨(negative, b), rfl, rfl, value⟩

theorem signedTracks (w : Width) (cause : IonError) (negative : Bool) (balanced : w.least = -w.greatest - 1)
    (value : magnitude.value = n) {limit : Nat} (last : w.greatest + 1 = limit) :
    Tracks (fun b e => b.value = e ∧ b.value ≠ w.least) (check (signed w cause negative magnitude))
      (if n < limit then return Payload.signed negative n else throw cause) := by
  by_cases small : n < limit
  · have fits : w.Holds magnitude.value := ⟨by omega, by omega⟩
    obtain ⟨a, ran, same⟩ := Register.narrowGives cause fits
    rw [if_pos small, signed, ran]
    cases negative with
    | false => exact .pure ⟨same.trans value, by omega⟩
    | true =>
      obtain ⟨b, ran', same'⟩ := Register.negGives (a := a) balanced (by omega)
      simp only [bind, Except.bind, if_true, ran']
      exact .pure ⟨by rw [same', same, value]; rfl, by omega⟩
  · have large : ¬w.Holds magnitude.value := fun fits => by have := fits.2; omega
    rw [if_neg small, signed, Register.narrowRefuses large]
    exact fun c => .refused _ c

theorem exponentTracks :
    Tracks (fun b e => b.value = e ∧ b.value ≠ Width.signed64.least) exponent Payload.exponent := by
  refine varIntTracks.bind ?_
  rintro ⟨negative, magnitude⟩ ⟨_, n⟩ ⟨rfl, value⟩
  exact signedTracks .signed64 .numericOverflow negative (by decide) value (by decide)

theorem offsetTracks :
    Tracks (fun b o => b.map Register.value = o ∧ ∀ m ∈ b, m.value ≠ Width.signed32.least) offset
      Payload.offset := by
  refine varIntTracks.bind ?_
  rintro ⟨negative, magnitude⟩ ⟨_, n⟩ ⟨rfl, value⟩
  have zero : magnitude.value = 0 ↔ n = 0 := by rw [value]; exact Int.natCast_eq_zero
  simp only [zero]
  by_cases unknown : negative = true ∧ n = 0
  · rw [if_pos unknown, if_pos unknown]
    exact .pure ⟨rfl, fun m given => nomatch given⟩
  · have minutes : Tracks _ (check (signed .signed32 .badTimestamp negative magnitude))
        (if n < 0x80000000 then return Payload.signed negative n else throw .badTimestamp) :=
      signedTracks .signed32 .badTimestamp negative (by decide) value (by decide)
    have known : (if n < 0x80000000 then return some (Payload.signed negative n) else throw .badTimestamp :
        Scan (Option Int)) =
        (if n < 0x80000000 then return Payload.signed negative n else throw .badTimestamp) >>=
          fun m => return some m := by split <;> rfl
    rw [if_neg unknown, if_neg unknown, known]
    refine minutes.bind fun m _ ⟨same, least⟩ => .pure ⟨congrArg some same, ?_⟩
    rintro _ ⟨⟩
    exact least

def Lists (fields : List (Register .unsigned64)) (ns : List Nat) : Prop :=
  fields.map Register.value = ns.map Nat.cast

theorem numbersTracks (limit : Nat) (count : Register .unsigned64) (few : count.value + limit ≤ 5) :
    Tracks (fun b ns => b.1.value = count.value + ns.length ∧ ns.length ≤ limit ∧ Lists b.2 ns)
      (numbers limit count) (Payload.numbers limit) := by
  induction limit generalizing count with
  | zero => exact .pure ⟨(Int.add_zero _).symm, Nat.le_refl 0, rfl⟩
  | succ limit ih =>
    rw [numbers, Payload.numbers]
    refine .got fun c => ?_
    by_cases ended : c.atEnd = true
    · rw [if_pos ended, if_pos ended]
      exact .ok ⟨(Int.add_zero _).symm, Nat.zero_le _, rfl⟩
    · rw [if_neg ended, if_neg ended]
      have low := count.fits.1
      simp only [Width.unsigned64] at low
      obtain ⟨next, ran, value⟩ := Register.exactlyGives (w := .unsigned64) (n := count.value + 1)
        (by simp only [Width.Holds, Width.unsigned64]; omega)
      refine varUIntTracks.bind (fun b n same => ?_) c
      simp only [Register.plus, ran, check]
      refine (ih next (by omega)).bind fun d ns later => .pure ⟨?_, ?_, ?_⟩
      · rw [later.1, value, List.length_cons]
        omega
      · exact Nat.succ_le_succ later.2.1
      · exact congrArg₂ List.cons same later.2.2

theorem precisionOfSame {count : Register .unsigned64} {n : Nat} (value : count.value = n) (few : n ≤ 5) :
    (precisionOf? count).map MachinePrecision.plain = Payload.precisionOf? n := by
  rw [precisionOf?, value]
  match n, few with
  | 0, _ | 1, _ | 2, _ | 3, _ | 4, _ | 5, _ => rfl

def SameFraction (b : MachinePrecision × Register .unsigned32) (a : Precision × Nat) : Prop :=
  b.1.plain = a.1 ∧ b.2.value = a.2

theorem scaledAgrees {digits : Register .unsigned32} {k m : Nat} (value : digits.value = k) :
    Agree SameFraction (scaled digits m)
      (Checked.of (if Payload.fractionLimit < k then .error .badTimestamp
        else if Nat.pow 10 k ≤ m then .error .badTimestamp
        else .ok (.fraction (min k 9), m * 1000000000 / Nat.pow 10 k))) := by
  rw [scaled, value, Int.toNat_natCast]
  by_cases long : Payload.fractionLimit < k
  · rw [if_pos long, if_pos (Int.ofNat_lt.mpr long)]
    exact .error _
  rw [if_neg long, if_neg (mt Int.ofNat_lt.mp long)]
  generalize Nat.pow 10 k = whole
  by_cases high : whole ≤ m
  · rw [if_pos high]
    dsimp only
    rw [if_pos (Int.ofNat_le.mpr high)]
    exact .error _
  rw [if_neg high]
  dsimp only
  rw [if_neg (mt Int.ofNat_le.mp high)]
  have below : m * 1000000000 / whole < 1000000000 :=
    Nat.div_lt_of_lt_mul (Nat.mul_lt_mul_of_pos_right (Nat.not_le.mp high) (by decide))
  have quotient : (m : Int) * 1000000000 / whole = (m * 1000000000 / whole : Nat) := rfl
  have least : min (k : Int) 9 = (min k 9 : Nat) := by omega
  obtain ⟨nano, ran, value'⟩ := Register.narrowGives (w := .unsigned32) (n := (m * 1000000000 / whole : Nat))
    .badTimestamp ⟨Int.natCast_nonneg _, by simp only [Width.unsigned32]; omega⟩
  obtain ⟨few, ran', value''⟩ := Register.exactlyGives (w := .unsigned8) (n := (min k 9 : Nat))
    (by simp only [Width.Holds, Width.unsigned8]; omega)
  rw [quotient, ran, least, ran']
  refine .ok ⟨?_, value'⟩
  rw [MachinePrecision.plain, value'', Int.toNat_natCast]

theorem fractionOfAgrees {e : Register .signed64} (negates : e.value ≠ Width.signed64.least) (c : Int) :
    Agree SameFraction (fractionOf e c) (Checked.of (Payload.fractionOf e.value c)) := by
  by_cases negative : c < 0
  · rw [fractionOf, Payload.fractionOf, if_pos negative, if_pos negative]
    exact .error _
  rw [fractionOf, Payload.fractionOf, if_neg negative, if_neg negative]
  by_cases whole : 0 ≤ e.value
  · rw [if_pos whole, if_pos whole]
    by_cases zero : c = 0
    · rw [if_pos zero, if_pos zero]
      exact .ok ⟨rfl, rfl⟩
    · rw [if_neg zero, if_neg zero]
      exact .error _
  rw [if_neg whole, if_neg whole]
  obtain ⟨m, rfl⟩ := Int.eq_ofNat_of_zero_le (Int.not_lt.mp negative)
  have places : -e.value = (e.value.natAbs : Nat) := by omega
  obtain ⟨opposite, ran, value⟩ := Register.negGives (a := e) (by decide) negates
  rw [ran]
  dsimp only [bind, Except.bind]
  rw [value, places, Int.natAbs_natCast]
  generalize e.value.natAbs = k
  by_cases narrow : Width.unsigned32.Holds k
  · obtain ⟨digits, ran', value'⟩ := Register.narrowGives .badTimestamp narrow
    rw [ran']
    exact scaledAgrees value'
  · have long : Payload.fractionLimit < k := by
      refine Nat.lt_of_not_le fun short => narrow ⟨Int.natCast_nonneg k, ?_⟩
      exact Int.le_trans (Int.ofNat_le.mpr short) (by decide)
    rw [Register.narrowRefuses narrow, if_pos long]
    exact .error _

theorem fractionTracks {coarse : MachinePrecision} {p : Precision} (plain : coarse.plain = p) :
    Tracks SameFraction (fraction coarse) (Payload.fraction p) := by
  rw [fraction, Payload.fraction]
  refine .got fun c => ?_
  by_cases ended : c.atEnd = true
  · rw [if_pos ended, if_pos ended]
    exact .ok ⟨plain, rfl⟩
  · rw [if_neg ended, if_neg ended]
    refine exponentTracks.bind (fun e _ same => (Tracks.read Payload.coefficient).bind fun a b equal => ?_) c
    obtain ⟨rfl, negates⟩ := same
    cases equal
    exact .check _ (fractionOfAgrees negates a) (fun _ ok => by rw [ok]) fun _ failed => by rw [failed]

def answer : Option α → Except IonError α
  | some a => .ok a
  | none => .error .badTimestamp

variable {fields : List (Register .unsigned64)} {ns : List Nat}

theorem fieldSame (lists : Lists fields ns) (place : Nat) {absent : Register .unsigned64} {d : Nat}
    (default : absent.value = d) :
    if ns[place]?.getD d ≤ 4294967295 then Gives (field fields place absent) (ns[place]?.getD d : Nat)
    else field fields place absent = .error (.refused .badTimestamp) := by
  have same : (fields[place]?.getD absent).value = (ns[place]?.getD d : Nat) := by
    have there := congrArg (·[place]?) lists
    simp only [List.getElem?_map] at there
    cases found : fields[place]? with
    | none =>
      rw [found, Option.map_none, eq_comm, Option.map_eq_none_iff] at there
      rw [there]
      exact default
    | some a =>
      rw [found, Option.map_some, eq_comm, Option.map_eq_some_iff] at there
      obtain ⟨n, given, value⟩ := there
      rw [given]
      exact value.symm
  rw [field, same]
  split
  · exact Register.narrowGives .badTimestamp (by simp only [Width.Holds, Width.unsigned32]; omega)
  · exact Register.narrowRefuses (by simp only [Width.Holds, Width.unsigned32]; omega)

theorem fieldAgrees {related : β → α → Prop} {next : Register .unsigned32 → Checked β}
    (plain : Nat → Except IonError α) (lists : Lists fields ns) (place : Nat) {absent : Register .unsigned64}
    {d : Nat} (default : absent.value = d)
    (within : ∀ a n, a.value.toNat = n → Agree related (next a) (Checked.of (plain n)))
    (beyond : ∀ n, 4294967295 < n → plain n = .error .badTimestamp) :
    Agree related (field fields place absent >>= next) (Checked.of (plain (ns[place]?.getD d))) := by
  have same := fieldSame lists place default
  split at same
  · obtain ⟨a, ran, value⟩ := same
    rw [ran]
    exact within a _ (by omega)
  · rw [same, beyond _ (by omega)]
    exact .error _

theorem noDate {year : Int} {month day : Nat} (large : 12 < month ∨ 31 < day) :
    Date.of? year month day = none := by
  refine dif_neg fun valid => ?_
  have months := monthOfDay valid
  have days := Payload.daysInMonthAtMost year month
  omega

theorem noTime {hour minute second nano : Nat} (large : 24 ≤ hour ∨ 60 ≤ minute ∨ 60 ≤ second) :
    Time.of? hour minute second nano = none :=
  dif_neg fun valid => by omega

theorem dateAgrees (lists : Lists fields ns) (year : Register .signed32) : Agree Eq (date year fields)
    (Checked.of (answer (Date.of? year.value (ns[0]?.getD 1) (ns[1]?.getD 1)))) := by
  have refused {m d : Nat} (large : 12 < m ∨ 31 < d) : answer (Date.of? year.value m d) = .error .badTimestamp :=
    congrArg answer (noDate large)
  refine fieldAgrees (fun m => answer (Date.of? _ m (ns[1]?.getD 1))) lists 0 rfl ?_
    fun m large => refused (.inl (by omega))
  rintro month _ rfl
  refine fieldAgrees (fun d => answer (Date.of? _ _ d)) lists 1 rfl ?_
    fun d large => refused (.inr (by omega))
  rintro day _ rfl
  cases Date.of? year.value month.value.toNat day.value.toNat with
  | some found => exact .ok rfl
  | none => exact .error _

theorem timeAgrees (lists : Lists fields ns) {nano : Register .unsigned32} {n : Nat} (value : nano.value = n) :
    Agree Eq (time fields nano)
      (Checked.of (answer (Time.of? (ns[2]?.getD 0) (ns[3]?.getD 0) (ns[4]?.getD 0) n))) := by
  obtain rfl : nano.value.toNat = n := by omega
  have refused {h m s : Nat} (large : 24 ≤ h ∨ 60 ≤ m ∨ 60 ≤ s) :
      answer (Time.of? h m s nano.value.toNat) = .error .badTimestamp := congrArg answer (noTime large)
  refine fieldAgrees (fun h => answer (Time.of? h (ns[3]?.getD 0) (ns[4]?.getD 0) _)) lists 2 rfl ?_
    fun h large => refused (.inl (by omega))
  rintro hour _ rfl
  refine fieldAgrees (fun m => answer (Time.of? _ m (ns[4]?.getD 0) _)) lists 3 rfl ?_
    fun m large => refused (.inr (.inl (by omega)))
  rintro minute _ rfl
  refine fieldAgrees (fun s => answer (Time.of? _ _ s _)) lists 4 rfl ?_
    fun s large => refused (.inr (.inr (by omega)))
  rintro second _ rfl
  cases Time.of? hour.value.toNat minute.value.toNat second.value.toNat nano.value.toNat with
  | some found => exact .ok rfl
  | none => exact .error _

variable {year : Register .unsigned64} {y : Nat} {nano : Register .unsigned32} {n : Nat}

theorem answerBind (first : Option α) (next : α → Option β) :
    answer (first >>= next) = answer first >>= fun a => answer (next a) := by
  cases first <;> rfl

theorem momentAgrees (lists : Lists fields ns) (dated : year.value = y) (value : nano.value = n)
    (fits : y ≤ 2147483647) :
    Agree Eq (moment year fields nano) (Checked.of (answer (Payload.moment? y ns n))) := by
  obtain ⟨narrowed, ran, value'⟩ := Register.narrowGives (w := .signed32) (n := year.value) .badTimestamp
    (by simp only [Width.Holds, Width.signed32]; omega)
  have same : (y : Int) = narrowed.value := (value'.trans dated).symm
  rw [moment, ran, Payload.moment?, answerBind, Checked.ofBind, same]
  refine (dateAgrees lists narrowed).bind fun _ d _ date => ?_
  rw [answerBind, Checked.ofBind]
  refine (timeAgrees lists value).bind fun _ t _ time => ?_
  rw [date, time]
  exact .ok rfl

theorem momentYear {utc : DateTime} (found : Payload.moment? y ns n = some utc) : utc.date.year = y := by
  simp only [Payload.moment?, Option.bind_eq_bind, Option.bind_eq_some_iff] at found
  obtain ⟨date, ofDate, time, -, same⟩ := found
  cases same
  exact (Date.ofIff.mp ofDate).1

variable {offset : Option (Register .signed32)}

theorem endAgrees (lists : Lists fields ns) (dated : year.value = y) (value : nano.value = n)
    (whole : ∀ m ∈ offset, m.value ≠ Width.signed32.least) (p : MachinePrecision) :
    Agree MachineTimestamp.Spells (do let utc ← moment year fields nano; MachineTimestamp.of utc offset p)
      (Checked.of (do
        let utc ← answer (Payload.moment? y ns n)
        Timestamp.of utc (offset.map Register.value) p.plain)) := by
  by_cases fits : y ≤ 2147483647
  · rw [Checked.ofBind]
    refine (momentAgrees lists dated value fits).bind fun _ utc _ same => ?_
    rw [same]
    refine MachineTimestamp.ofAgrees fun ⟨_, _, _, given⟩ => ?_
    obtain ⟨m, given, least⟩ := Option.map_eq_some_iff.mp given
    exact whole m given least
  · have misfit : ¬Width.signed32.Holds year.value := by simp only [Width.Holds, Width.signed32]; omega
    rw [moment, Register.narrowRefuses misfit]
    cases found : Payload.moment? y ns n with
    | none => exact .error _
    | some utc =>
      have late := momentYear found
      have refused : Timestamp.of utc (offset.map Register.value) p.plain = .error .badTimestamp :=
        Timestamp.ofMisfit fun kept => by have := kept.year; omega
      simp only [answer, bind, Except.bind, refused]
      exact .error _

theorem endTracks (lists : Lists fields ns) (dated : year.value = y)
    (whole : ∀ m ∈ offset, m.value ≠ Width.signed32.least) {p : MachinePrecision} {found : Precision × Nat}
    (same : SameFraction (p, nano) found) :
    Tracks MachineTimestamp.Spells
      (check do let utc ← moment year fields nano; MachineTimestamp.of utc offset p)
      (Payload.timestampEnd (offset.map Register.value) y ns found) := by
  have agree := endAgrees lists dated same.2 whole p
  rw [same.1] at agree
  unfold Payload.timestampEnd
  cases there : Payload.moment? y ns found.2 with
  | none =>
    rw [there] at agree
    exact .check (.error .badTimestamp) agree nofun fun _ failed => by cases failed; rfl
  | some utc =>
    rw [there] at agree
    exact .check (Timestamp.of utc (offset.map Register.value) found.1) agree
      (fun _ ok => by dsimp only; rw [ok]) fun _ failed => by dsimp only; rw [failed]

theorem timestampTracks : Tracks MachineTimestamp.Spells timestampScan Payload.timestampScan := by
  rw [Payload.timestampParted]
  refine offsetTracks.bind fun offset _ ⟨same, whole⟩ => ?_
  refine varUIntTracks.bind fun year y dated => ?_
  refine (numbersTracks 5 ⟨0, by decide⟩ (by decide)).bind ?_
  intro ⟨count, fields⟩ ns ⟨counted, few, lists⟩
  have coarse := precisionOfSame (counted.trans (Int.zero_add _)) few
  cases same
  dsimp only [Payload.timestampTail]
  rw [← coarse]
  cases precisionOf? count with
  | none => exact fun c => .refused _ c
  | some p => exact (fractionTracks rfl).bind fun _ _ same => endTracks lists dated whole same

theorem timestampAgrees (raw : Bytes) :
    Agree MachineTimestamp.Spells (timestamp raw) (Checked.of (Payload.timestamp raw)) :=
  timestampTracks.runs raw

end MachinePayload

namespace MachineTimestamp

/-- Of all that can be given, only an offset without an absolute value makes an operation fail, and only where
nothing before it is refused. What else is out of range is refused, all other work ends as on numbers, and what
it stores is in range. -/
theorem operationsFit (utc : DateTime) (p : MachinePrecision) :
    (∀ offset,
      let minutes := offset.map Register.value
      (Overflows utc offset p → of utc offset p = .error .overflow) ∧
        (Timestamp.Fits utc minutes p.plain →
          ∃ m t, of utc offset p = .ok m ∧ Timestamp.of utc minutes p.plain = .ok t ∧ Spells m t) ∧
        (¬Overflows utc offset p → ¬Timestamp.Fits utc minutes p.plain →
          of utc offset p = .error (.refused .badTimestamp))) ∧
    (∀ seconds,
      Agree Spells (ofInstant utc seconds p) (Checked.of (Timestamp.ofInstant utc seconds.value p.plain)) ∧
        Agree Spells (ofInstantExact utc seconds) (Checked.of (Timestamp.ofInstantExact utc seconds.value))) ∧
    (∀ year month day, Agree Spells (ofDate year month day p)
      (Checked.of (Timestamp.ofDate year.value month.value.toNat day.value.toNat p.plain))) ∧
    (∀ raw, Agree Spells (MachinePayload.timestamp raw) (Checked.of (Payload.timestamp raw))) ∧
    ∀ m t, Spells m t → m.Bounded ∧ m.Shows t :=
  ⟨fun _ => ⟨ofOverflows, ofFits, ofMisfit⟩,
    fun seconds => ⟨ofInstantAgrees utc seconds p, ofInstantExactAgrees utc seconds⟩,
    fun year month day => ofDateAgrees year month day p,
    MachinePayload.timestampAgrees,
    fun _ _ spells => ⟨spells.bounded, spells.shows⟩⟩

def newYear : DateTime := ⟨⟨2000, 1, 1, by decide⟩, .midnight⟩

theorem leastOffsetOverflows : of newYear (some ⟨-2147483648, by decide⟩) .second = .error .overflow ∧
    of newYear (some ⟨-2147483647, by decide⟩) .second = .error (.refused .badTimestamp) :=
  ⟨rfl, rfl⟩

theorem greatestOffsetShown :
    ∃ m, of newYear (some ⟨1439, by decide⟩) (.fraction ⟨9, by decide⟩) = .ok m ∧ m.Bounded ∧
      m.offsetSeconds = .ok 86340 := by
  obtain ⟨built, -, -, -, stored⟩ := operationsFit newYear (.fraction ⟨9, by decide⟩)
  obtain ⟨-, fitting, -⟩ := built (some ⟨1439, by decide⟩)
  obtain ⟨m, t, made, plain, spells⟩ := fitting ⟨by decide, by decide, by decide⟩
  obtain ⟨bounded, shows⟩ := stored m t spells
  have offset : t.offset = some 1439 := (Timestamp.ofOk plain).2.2.1
  exact ⟨m, made, bounded, by rw [shows.offsetSeconds, offset]; rfl⟩

end MachineTimestamp

end Ion
