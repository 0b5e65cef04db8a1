import Ion.Proofs.Instants

/-! The text of a timestamp says all of it. It shows local fields, so what is needed besides unambiguous
spelling is that local time can be turned back: the days before and behind a day are undone by each other,
across months and years too. -/
namespace Ion

theorem Date.ext {d e : Date} (year : d.year = e.year) (month : d.month = e.month) (day : d.day = e.day) :
    d = e := by
  obtain ⟨_, _, _, _⟩ := d
  obtain ⟨_, _, _, _⟩ := e
  simp_all

namespace Date

theorem previousNext (d : Date) : d.next.previous = d := by
  have first := d.valid.1
  have last := d.valid.2
  have month := monthOfDay d.valid
  unfold next
  split
  · rw [previous, dif_pos (by dsimp only; omega)]
    exact ext rfl rfl (by dsimp only; omega)
  · split
    · rw [previous, dif_neg (by simp), dif_pos (by dsimp only; omega)]
      exact ext rfl rfl (by simp only [Nat.add_sub_cancel]; omega)
    · rename_i full december
      have month : d.month = 12 := by omega
      rw [month] at full last
      have days : daysInMonth d.year 12 = 31 := rfl
      rw [previous, dif_neg (by simp), dif_neg (by simp)]
      exact ext (by dsimp only; omega) month.symm (by dsimp only; omega)

theorem nextPrevious (d : Date) : d.previous.next = d := by
  have first := d.valid.1
  have last := d.valid.2
  have month := monthOfDay d.valid
  unfold previous
  split
  · rename_i later
    rw [next, dif_pos (by dsimp only; omega)]
    exact ext rfl rfl (by dsimp only; omega)
  · split
    · rename_i later
      rw [next, dif_neg (by simp), dif_pos (by dsimp only; omega)]
      exact ext rfl (by dsimp only; omega) (by dsimp only; omega)
    · rw [next, dif_neg (by simp [daysInMonth]), dif_neg (by simp)]
      exact ext (by dsimp only; omega) (by dsimp only; omega) (by dsimp only; omega)

theorem nextYear (d : Date) : d.year ≤ d.next.year := by
  unfold next
  split
  · exact Int.le_refl _
  · split
    · exact Int.le_refl _
    · exact Int.le_add_one (Int.le_refl _)

theorem previousYear (d : Date) : d.year - 1 ≤ d.previous.year := by
  unfold previous
  split
  · dsimp only
    omega
  · split
    · dsimp only
      omega
    · exact Int.le_refl _

end Date

namespace DateTime

theorem minutesLess (t : Time) : t.minutes < 1440 := by
  have valid := t.valid
  unfold Time.minutes
  omega

theorem minutesOf (t : Time) {n : Nat} (day : n < 1440) : (t.withMinutes n).minutes = n := by
  simp only [Time.minutes, Time.withMinutes]
  omega

theorem minutesSame (t : Time) : t.withMinutes t.minutes = t := by
  obtain ⟨hour, minute, second, nano, valid⟩ := t
  simp only [Time.minutes, Time.withMinutes, Time.mk.injEq, and_true]
  omega

variable {u : DateTime} {m : Int}

theorem shiftBefore (before : u.time.minutes + m < 0) :
    u.shift m = ⟨u.date.previous, u.time.withMinutes (u.time.minutes + m + 1440).toNat⟩ := if_pos before

theorem shiftWithin (least : 0 ≤ u.time.minutes + m) (most : u.time.minutes + m < 1440) :
    u.shift m = ⟨u.date, u.time.withMinutes (u.time.minutes + m).toNat⟩ :=
  (if_neg (Int.not_lt.mpr least)).trans (if_pos most)

theorem shiftBehind (behind : 1440 ≤ u.time.minutes + m) :
    u.shift m = ⟨u.date.next, u.time.withMinutes (u.time.minutes + m - 1440).toNat⟩ :=
  (if_neg (by omega)).trans (if_neg (Int.not_lt.mpr behind))

theorem shiftBack (u : DateTime) {m : Int} (day : m.natAbs < minutesOfDay) : (u.shift m).shift (-m) = u := by
  have today := minutesLess u.time
  unfold minutesOfDay at day
  have landed {d : Date} {n k : Nat} (sameDate : d = u.date) (sameMinutes : k = u.time.minutes) :
      (⟨d, (u.time.withMinutes n).withMinutes k⟩ : DateTime) = u := by
    rw [sameDate, sameMinutes]
    exact congrArg _ (minutesSame u.time)
  by_cases before : u.time.minutes + m < 0
  · have minutes := minutesOf u.time (n := (u.time.minutes + m + 1440).toNat) (by omega)
    rw [shiftBefore before, shiftBehind (by dsimp only; omega)]
    exact landed u.date.nextPrevious (by rw [minutes]; omega)
  · by_cases within : u.time.minutes + m < 1440
    · have minutes := minutesOf u.time (n := (u.time.minutes + m).toNat) (by omega)
      rw [shiftWithin (by omega) within, shiftWithin (by dsimp only; omega) (by dsimp only; omega)]
      exact landed rfl (by rw [minutes]; omega)
    · have minutes := minutesOf u.time (n := (u.time.minutes + m - 1440).toNat) (by omega)
      rw [shiftBehind (u := u) (by omega), shiftBefore (by dsimp only; omega)]
      exact landed u.date.previousNext (by rw [minutes]; omega)

theorem shiftNone (u : DateTime) : u.shift 0 = u := by
  have today := minutesLess u.time
  have minutes : ((u.time.minutes : Int) + 0).toNat = u.time.minutes := by omega
  rw [shiftWithin (by omega) (by omega), minutes, minutesSame]

theorem shiftKeeps (u : DateTime) (m : Int) : u.date.year - 1 ≤ (u.shift m).date.year ∧
    (u.shift m).time.second = u.time.second ∧ (u.shift m).time.nano = u.time.nano := by
  by_cases before : u.time.minutes + m < 0
  · rw [shiftBefore before]
    exact ⟨u.date.previousYear, rfl, rfl⟩
  · by_cases within : u.time.minutes + m < 1440
    · rw [shiftWithin (by omega) within]
      exact ⟨by dsimp only; omega, rfl, rfl⟩
    · have year := u.date.nextYear
      rw [shiftBehind (by omega)]
      exact ⟨by dsimp only; omega, rfl, rfl⟩

end DateTime

theorem Precision.fieldsMost (p : Precision) : p.fields ≤ 5 := by
  cases p <;> simp [fields]

namespace Timestamp

def digits (width n : Nat) : List Char :=
  List.replicate (width - (Nat.toDigits 10 n).length) '0' ++ Nat.toDigits 10 n

theorem paddedChars (width n : Nat) : (padded width n).toList = digits width n := String.toList_ofList

theorem digitsOnly (width n : Nat) : ∀ c ∈ digits width n, c.isDigit = true := by
  intro c mem
  rcases List.mem_append.mp mem with zero | digit
  · rw [List.eq_of_mem_replicate zero]
    rfl
  · exact Nat.isDigit_of_mem_toDigits (by decide) (by decide) digit

theorem digitsValue (width n : Nat) : Nat.ofDigitChars 10 (digits width n) 0 = n := by
  rw [digits, Nat.ofDigitChars_append, Nat.ofDigitChars_replicate_zero, Nat.mul_zero,
    Nat.ofDigitChars_ten_toDigits]

theorem digitsInjective {width width' n k : Nat} (same : digits width n = digits width' k) : n = k := by
  rw [← digitsValue width n, same, digitsValue]

theorem digitsLength {width n : Nat} (positive : 0 < width) (below : n < 10 ^ width) :
    (digits width n).length = width := by
  have few := (Nat.length_toDigits_le_iff (by decide) positive).mpr below
  rw [digits, List.length_append, List.length_replicate]
  omega

def spelled (groups : List (Char × List Char)) : List Char :=
  groups.flatMap fun group => group.1 :: group.2

def Group (group : Char × List Char) : Prop :=
  group.1.isDigit = false ∧ ∀ c ∈ group.2, c.isDigit = true

theorem spelledCons (g : Char × List Char) (gs : List (Char × List Char)) :
    spelled (g :: gs) = g.1 :: (g.2 ++ spelled gs) := List.flatMap_cons

theorem marksApart {gs : List (Char × List Char)} (marked : ∀ g ∈ gs, Group g) {c : Char}
    (digit : c.isDigit = true) (rest : List Char) : spelled gs ≠ c :: rest := by
  intro same
  cases gs with
  | nil => nomatch same
  | cons g gs =>
    rw [spelledCons, List.cons.injEq] at same
    have mark := (marked g List.mem_cons_self).1
    rw [same.1, digit] at mark
    contradiction

section

variable {ds es : List Char} {gs hs : List (Char × List Char)}

theorem digitsApart (number : ∀ c ∈ ds, c.isDigit = true) (number' : ∀ c ∈ es, c.isDigit = true)
    (marked : ∀ g ∈ gs, Group g) (marked' : ∀ g ∈ hs, Group g)
    (same : ds ++ spelled gs = es ++ spelled hs) : ds = es ∧ spelled gs = spelled hs := by
  induction ds generalizing es with
  | nil =>
    cases es with
    | nil => exact ⟨rfl, same⟩
    | cons e es => exact absurd same (marksApart marked (number' e List.mem_cons_self) _)
  | cons d ds ih =>
    cases es with
    | nil => exact absurd same.symm (marksApart marked' (number d List.mem_cons_self) _)
    | cons e es =>
      rw [List.cons_append, List.cons_append, List.cons.injEq] at same
      obtain ⟨rfl, same⟩ := same
      obtain ⟨rfl, tails⟩ := ih (fun c mem => number c (List.mem_cons_of_mem _ mem))
        (fun c mem => number' c (List.mem_cons_of_mem _ mem)) same
      exact ⟨rfl, tails⟩

theorem spelledApart (number : ∀ c ∈ ds, c.isDigit = true) (number' : ∀ c ∈ es, c.isDigit = true)
    (marked : ∀ g ∈ gs, Group g) (marked' : ∀ g ∈ hs, Group g)
    (same : ds ++ spelled gs = es ++ spelled hs) : ds = es ∧ gs = hs := by
  induction gs generalizing ds es hs with
  | nil =>
    obtain ⟨equal, nothing⟩ := digitsApart number number' marked marked' same
    cases hs with
    | nil => exact ⟨equal, rfl⟩
    | cons h hs => nomatch nothing
  | cons g gs ih =>
    obtain ⟨equal, tails⟩ := digitsApart number number' marked marked' same
    cases hs with
    | nil => nomatch tails
    | cons h hs =>
      rw [spelledCons, spelledCons, List.cons.injEq] at tails
      obtain ⟨group, groups⟩ := ih (marked g List.mem_cons_self).2 (marked' h List.mem_cons_self).2
        (fun g mem => marked g (List.mem_cons_of_mem _ mem))
        (fun g mem => marked' g (List.mem_cons_of_mem _ mem)) tails.2
      exact ⟨equal, by rw [Prod.ext tails.1 group, groups]⟩

end

def fieldGroups (t : Timestamp) : List (Char × List Char) :=
  [('-', digits 2 t.localTime.date.month), ('-', digits 2 t.localTime.date.day),
    ('T', digits 2 t.localTime.time.hour), (':', digits 2 t.localTime.time.minute),
    (':', digits 2 t.localTime.time.second)]

def fractionGroups : Option (Nat × Nat) → List (Char × List Char)
  | some (places, coefficient) => [('.', digits places coefficient)]
  | none => []

def offsetGroups : Option Int → List (Char × List Char)
  | none => [('-', digits 2 0), (':', digits 2 0)]
  | some 0 => [('Z', [])]
  | some m => [(if m < 0 then '-' else '+', digits 2 (m.natAbs / 60)), (':', digits 2 (m.natAbs % 60))]

def endGroups (t : Timestamp) : List (Char × List Char) :=
  if t.precision.hasTime then fractionGroups t.fraction? ++ offsetGroups t.offset
  else if t.precision = .day then [] else [('T', [])]

theorem spelledAppend (gs hs : List (Char × List Char)) : spelled (gs ++ hs) = spelled gs ++ spelled hs :=
  List.flatMap_append

theorem offsetChars (o : Option Int) : (offsetText o).toList = spelled (offsetGroups o) := by
  unfold offsetText offsetGroups
  split
  · rfl
  · rfl
  · rename_i m nonzero
    by_cases behind : m < 0 <;> simp [behind, paddedChars, spelled]

theorem secondChars (t : Timestamp) : (secondText t).toList =
    spelled ((if 5 ≤ t.precision.fields then [(':', digits 2 t.utc.time.second)] else []) ++
      fractionGroups t.fraction?) := by
  rw [secondText, String.toList_append, spelledAppend]
  congr 1
  · split
    · simp [spelled, paddedChars]
    · rfl
  · cases t.fraction? with
    | none => rfl
    | some found => simp [fractionGroups, spelled, paddedChars]

theorem textGroups (t : Timestamp) : t.text.toList = digits 4 t.localTime.date.year.toNat ++
    spelled (t.fieldGroups.take t.precision.fields ++ t.endGroups) := by
  have seconds : t.localTime.time.second = t.utc.time.second := (t.utc.shiftKeeps _).2.1
  unfold text endGroups fieldGroups
  cases precision : t.precision <;>
    simp [precision, seconds, dateText, Precision.hasTime, Precision.fields, paddedChars, secondChars,
      offsetChars, spelledAppend, spelledCons, show spelled [] = [] from rfl]

theorem markedDigits {mark : Char} {gs : List (Char × List Char)} (plain : mark.isDigit = false)
    (width n : Nat) (rest : ∀ g ∈ gs, Group g) : ∀ g ∈ (mark, digits width n) :: gs, Group g :=
  List.forall_mem_cons.mpr ⟨⟨plain, digitsOnly width n⟩, rest⟩

theorem offsetMarked (o : Option Int) : ∀ g ∈ offsetGroups o, Group g := by
  unfold offsetGroups
  split
  · exact markedDigits rfl 2 0 (markedDigits rfl 2 0 nofun)
  · exact List.forall_mem_singleton.mpr ⟨rfl, nofun⟩
  · exact markedDigits (by split <;> rfl) 2 _ (markedDigits rfl 2 _ nofun)

theorem groupsMarked (t : Timestamp) :
    ∀ g ∈ t.fieldGroups.take t.precision.fields ++ t.endGroups, Group g := by
  have fields : ∀ g ∈ t.fieldGroups, Group g :=
    markedDigits rfl 2 _ (markedDigits rfl 2 _ (markedDigits rfl 2 _ (markedDigits rfl 2 _
      (markedDigits rfl 2 _ nofun))))
  refine List.forall_mem_append.mpr ⟨fun g mem => fields g (List.mem_of_mem_take mem), ?_⟩
  unfold endGroups
  split
  · refine List.forall_mem_append.mpr ⟨?_, offsetMarked t.offset⟩
    cases t.fraction? with
    | none => nofun
    | some => exact markedDigits rfl _ _ nofun
  · split
    · nofun
    · exact List.forall_mem_singleton.mpr ⟨rfl, nofun⟩

def fieldMarks : List Char := ['-', '-', 'T', ':', ':']

theorem offsetMark (o : Option Int) :
    ∃ mark, (offsetGroups o)[0]?.map Prod.fst = some mark ∧ mark ≠ ':' ∧ mark ≠ '.' := by
  unfold offsetGroups
  split
  · exact ⟨_, rfl, by decide⟩
  · exact ⟨_, rfl, by decide⟩
  · exact ⟨_, rfl, by split <;> simp⟩

theorem endMark (t : Timestamp) (less : t.precision.fields < 5) :
    t.endGroups[0]?.map Prod.fst ≠ fieldMarks[t.precision.fields]? := by
  obtain ⟨mark, offset, different, -⟩ := offsetMark t.offset
  unfold endGroups fraction?
  cases precision : t.precision with
  | year => exact fun same : some 'T' = some '-' => absurd same (by decide)
  | month => exact fun same : some 'T' = some '-' => absurd same (by decide)
  | day => exact fun same : none = some 'T' => (nomatch same)
  | minute => exact fun same => different (Option.some.inj (offset.symm.trans same))
  | second | fraction => simp [precision, Precision.fields] at less

variable {t u : Timestamp}

theorem fieldsTaken (t : Timestamp) :
    (t.fieldGroups.take t.precision.fields).length = t.precision.fields := by
  rw [List.length_take]
  exact Nat.min_eq_left t.precision.fieldsMost

theorem fieldsApart (fewer : t.precision.fields < u.precision.fields) :
    t.fieldGroups.take t.precision.fields ++ t.endGroups ≠
      u.fieldGroups.take u.precision.fields ++ u.endGroups := by
  intro same
  refine endMark t (Nat.lt_of_lt_of_le fewer u.precision.fieldsMost) ?_
  have next := congrArg (fun groups => groups[t.precision.fields]?.map Prod.fst) same
  rw [List.getElem?_append_right (Nat.le_of_eq (fieldsTaken t)), fieldsTaken, Nat.sub_self,
    List.getElem?_append_left (by rw [fieldsTaken]; exact fewer), List.getElem?_take_of_lt fewer] at next
  rw [next, ← List.getElem?_map]
  rfl

theorem textsApart (same : t.text = u.text) : t.localTime.date.year.toNat = u.localTime.date.year.toNat ∧
    t.precision.fields = u.precision.fields ∧
      t.fieldGroups.take t.precision.fields = u.fieldGroups.take u.precision.fields ∧
        t.endGroups = u.endGroups := by
  have chars := congrArg String.toList same
  rw [textGroups, textGroups] at chars
  obtain ⟨year, groups⟩ :=
    spelledApart (digitsOnly 4 _) (digitsOnly 4 _) t.groupsMarked u.groupsMarked chars
  have fields : t.precision.fields = u.precision.fields :=
    Nat.le_antisymm (Nat.not_lt.mp fun fewer => fieldsApart fewer groups.symm)
      (Nat.not_lt.mp fun fewer => fieldsApart fewer groups)
  have length : (t.fieldGroups.take t.precision.fields).length =
      (u.fieldGroups.take u.precision.fields).length := by rw [fieldsTaken, fieldsTaken, fields]
  exact ⟨digitsInjective year, fields, List.append_inj groups length⟩

def shown (t : Timestamp) : List Nat :=
  [t.localTime.date.month, t.localTime.date.day, t.localTime.time.hour, t.localTime.time.minute,
    t.localTime.time.second]

theorem fieldValues (t : Timestamp) :
    t.fieldGroups.map (fun group => Nat.ofDigitChars 10 group.2 0) = t.shown := by
  simp only [fieldGroups, List.map_cons, List.map_nil, digitsValue, shown]

theorem localDate (dated : ¬t.precision.hasTime = true) : t.offset = none ∧ t.localTime = t.utc := by
  have unknown : t.offset = none := by
    cases found : t.offset with
    | none => rfl
    | some m => exact absurd (t.offsetFits m found).1 dated
  exact ⟨unknown, by rw [localTime, unknown]; exact t.utc.shiftNone⟩

theorem localSecond (t : Timestamp) : t.localTime.time.second = t.utc.time.second := (t.utc.shiftKeeps _).2.1

theorem localNano (t : Timestamp) : t.localTime.time.nano = t.utc.time.nano := (t.utc.shiftKeeps _).2.2

theorem shownLeast (t : Timestamp) :
    t.shown.drop t.precision.fields = [1, 1, 0, 0, 0].drop t.precision.fields := by
  obtain ⟨month, day, time, second, -⟩ := (DateTime.truncateKeeps _ _).mp t.truncated
  have dated := t.localDate
  rw [shown, localSecond]
  cases precision : t.precision with
  | year | month | day =>
    rw [precision] at month day time second dated
    rw [(dated (by decide)).2]
    simp_all [Precision.fields]
  | minute =>
    rw [precision] at second
    exact congrArg (fun second => [second]) (second (by decide))
  | second | fraction => rfl

def offsetOf : List (Char × List Char) → Option Int
  | [(mark, hours), (_, minutes)] =>
    let n := Nat.ofDigitChars 10 hours 0 * 60 + Nat.ofDigitChars 10 minutes 0
    if n = 0 then none else some (if mark = '-' then -n else n)
  | _ => some 0

theorem offsetRead (o : Option Int) : offsetOf (offsetGroups o) = o := by
  unfold offsetGroups
  split
  · rfl
  · rfl
  · rename_i m nonzero
    have whole : m.natAbs / 60 * 60 + m.natAbs % 60 = m.natAbs := by omega
    have something : m ≠ 0 := nonzero
    simp only [offsetOf, digitsValue, whole]
    rw [if_neg (Int.natAbs_ne_zero.mpr something)]
    by_cases behind : m < 0
    · simp only [behind, if_true, Option.some.injEq]
      omega
    · simp only [behind, if_false, Option.some.injEq]
      rw [if_neg (by decide)]
      omega

theorem offsetsApart {o o' : Option Int} (same : offsetGroups o = offsetGroups o') : o = o' := by
  rw [← offsetRead o, same, offsetRead]

theorem coefficientLess {places coefficient : Nat} (found : t.fraction? = some (places, coefficient)) :
    0 < places ∧ coefficient < 10 ^ places := by
  have range := t.digitsFit
  have below := ((DateTime.truncateKeeps _ _).mp t.truncated).nano.1
  unfold fraction? at found
  split at found
  · rename_i digits precision
    cases found
    simp only [precision, Precision.inRange, Bool.and_eq_true, decide_eq_true_eq] at range
    refine ⟨range.1, Nat.div_lt_of_lt_mul ?_⟩
    rw [Payload.fractionUnitScale range.2]
    exact below
  · contradiction

theorem fractionsApart {o o' : Option Int} (same : fractionGroups t.fraction? ++ offsetGroups o =
    fractionGroups u.fraction? ++ offsetGroups o') : t.fraction? = u.fraction? ∧ o = o' := by
  have dotted (f : Nat × Nat) (o o' : Option Int) :
      offsetGroups o ≠ fractionGroups (some f) ++ offsetGroups o' := by
    intro same
    obtain ⟨mark, first, -, different⟩ := offsetMark o
    rw [same] at first
    exact different (Option.some.inj first).symm
  cases found : t.fraction? with
  | none =>
    cases found' : u.fraction? with
    | none =>
      rw [found, found'] at same
      exact ⟨rfl, offsetsApart same⟩
    | some f =>
      rw [found, found'] at same
      exact absurd same (dotted f o o')
  | some f =>
    cases found' : u.fraction? with
    | none =>
      rw [found, found'] at same
      exact absurd same.symm (dotted f o' o)
    | some f' =>
      obtain ⟨places, coefficient⟩ := f
      obtain ⟨places', coefficient'⟩ := f'
      rw [found, found', fractionGroups, fractionGroups, List.singleton_append, List.singleton_append,
        List.cons.injEq, Prod.mk.injEq] at same
      obtain ⟨⟨-, chars⟩, offsets⟩ := same
      obtain ⟨positive, less⟩ := coefficientLess found
      obtain ⟨positive', less'⟩ := coefficientLess found'
      have samePlaces : places = places' := by
        rw [← digitsLength positive less, chars, digitsLength positive' less']
      rw [samePlaces, digitsInjective chars]
      exact ⟨rfl, offsetsApart offsets⟩

theorem fractionDate (dated : ¬t.precision.hasTime = true) : t.fraction? = none := by
  unfold fraction?
  split
  · rename_i digits precision
    rw [precision] at dated
    exact absurd rfl dated
  · rfl

theorem endsApart (fields : t.precision.fields = u.precision.fields) (same : t.endGroups = u.endGroups) :
    t.fraction? = u.fraction? ∧ t.offset = u.offset := by
  have timed : t.precision.hasTime = u.precision.hasTime := by
    rw [Precision.hasTime, Precision.hasTime, fields]
  unfold endGroups at same
  by_cases time : u.precision.hasTime = true
  · rw [if_pos (timed.trans time), if_pos time] at same
    exact fractionsApart same
  · have time' := fun shown => time (timed.symm.trans shown)
    exact ⟨(fractionDate time').trans (fractionDate time).symm,
      (t.localDate time').1.trans (u.localDate time).1.symm⟩

def nanoOf : Option (Nat × Nat) → Nat
  | some (places, coefficient) => coefficient * fractionUnit places
  | none => 0

theorem nanoRead (t : Timestamp) : nanoOf t.fraction? = t.utc.time.nano := by
  obtain ⟨below, whole⟩ := ((DateTime.truncateKeeps _ _).mp t.truncated).nano
  unfold fraction?
  cases precision : t.precision with
  | fraction digits =>
    rw [precision] at whole
    exact Nat.div_mul_cancel whole
  | year | month | day | minute | second =>
    rw [precision] at whole
    exact (Nat.eq_zero_of_dvd_of_lt whole below).symm

def precisionOf (fields : Nat) : Option (Nat × Nat) → Option Precision
  | some (places, _) => some (.fraction places)
  | none => Payload.precisionOf? fields

theorem precisionRead (t : Timestamp) :
    precisionOf t.precision.fields t.fraction? = some t.precision := by
  unfold fraction?
  cases t.precision <;> rfl

theorem shownSame (fields : t.precision.fields = u.precision.fields)
    (taken : t.fieldGroups.take t.precision.fields = u.fieldGroups.take u.precision.fields) :
    t.shown = u.shown := by
  have values := congrArg (List.map fun group => Nat.ofDigitChars 10 group.2 0) taken
  rw [List.map_take, List.map_take, fieldValues, fieldValues] at values
  rw [← List.take_append_drop t.precision.fields t.shown, shownLeast, values, fields, ← shownLeast u,
    List.take_append_drop]

theorem localYear (t : Timestamp) : 0 ≤ t.localTime.date.year := by
  have utc := t.yearFits.1
  have moved := (t.utc.shiftKeeps (t.offset.getD 0)).1
  rw [localTime]
  omega

theorem localBack (t : Timestamp) : t.localTime.shift (-(t.offset.getD 0)) = t.utc := by
  refine t.utc.shiftBack ?_
  cases found : t.offset with
  | none => decide
  | some m => exact (t.offsetFits m found).2

/-- Timestamps with the same text are the same. -/
theorem textInjective (t u : Timestamp) : t.text = u.text ↔ t = u := by
  refine ⟨fun same => ?_, fun same => congrArg text same⟩
  obtain ⟨year, fields, taken, ends⟩ := textsApart same
  obtain ⟨fraction, offset⟩ := endsApart fields ends
  have precision : t.precision = u.precision :=
    Option.some.inj (by rw [← t.precisionRead, ← u.precisionRead, fields, fraction])
  have nano : t.utc.time.nano = u.utc.time.nano := by rw [← nanoRead, ← nanoRead, fraction]
  have shown := shownSame fields taken
  have years := t.localYear
  have years' := u.localYear
  simp only [Timestamp.shown, List.cons.injEq, and_true] at shown
  obtain ⟨month, day, hour, minute, second⟩ := shown
  have locals : t.localTime = u.localTime :=
    DateTime.ext (by omega) month day hour minute second (by rw [localNano, localNano, nano])
  exact ext (by rw [← t.localBack, ← u.localBack, locals, offset]) offset precision

end Timestamp

end Ion
