import Ion.Proofs.Bodies

/-! Timestamps of instants. Below its precision a timestamp has nothing, so building one again from what it
shows gives it back; an instant with an offset gets the coarsest precision that keeps its nanoseconds. -/
namespace Ion

namespace Precision

def places : Precision → Nat
  | fraction digits => digits
  | _ => 0

def ofPlaces : Nat → Precision
  | 0 => second
  | digits + 1 => fraction (digits + 1)

@[simp] theorem ofPlacesPlaces (n : Nat) : (ofPlaces n).places = n := by
  cases n <;> rfl

@[simp] theorem ofPlacesFields (n : Nat) : (ofPlaces n).fields = 5 := by
  cases n <;> rfl

theorem ofPlacesSome {n : Nat} (positive : 0 < n) : ofPlaces n = fraction n := by
  cases n with
  | zero => contradiction
  | succ digits => rfl

theorem ofPlacesInRange {n : Nat} (few : n ≤ 9) : (ofPlaces n).inRange = true := by
  cases n with
  | zero => rfl
  | succ digits => simp [ofPlaces, inRange, few]

end Precision

structure DateTime.Cut (u : DateTime) (p : Precision) : Prop where
  month : p.fields < 1 → u.date.month = 1
  day : p.fields < 2 → u.date.day = 1
  time : p.fields < 4 → u.time.hour = 0 ∧ u.time.minute = 0
  second : p.fields < 5 → u.time.second = 0
  nano : u.time.nano < 10 ^ 9 ∧ 10 ^ (9 - p.places) ∣ u.time.nano

namespace DateTime

theorem ext {u v : DateTime} (year : u.date.year = v.date.year) (month : u.date.month = v.date.month)
    (day : u.date.day = v.date.day) (hour : u.time.hour = v.time.hour)
    (minute : u.time.minute = v.time.minute) (second : u.time.second = v.time.second)
    (nano : u.time.nano = v.time.nano) : u = v := by
  obtain ⟨⟨_, _, _, _⟩, ⟨_, _, _, _, _⟩⟩ := u
  obtain ⟨⟨_, _, _, _⟩, ⟨_, _, _, _, _⟩⟩ := v
  simp_all

theorem cutNanoKeeps (digits nano : Nat) :
    cutNano digits nano = nano ↔ nano < 10 ^ 9 ∧ 10 ^ (9 - digits) ∣ nano := by
  refine ⟨fun kept => ?_, fun ⟨below, whole⟩ => ?_⟩
  · have bound := cutNanoBound digits nano
    rw [kept] at bound
    rw [cutNano, Nat.min_eq_left bound] at kept
    exact ⟨by omega, (Nat.dvd_iff_div_mul_eq _ _).mpr kept⟩
  · rw [cutNano, Nat.min_eq_left (by omega)]
    exact Nat.div_mul_cancel whole

theorem truncateCut (u : DateTime) (p : Precision) : (u.truncate p).Cut p := by
  cases p with
  | fraction digits =>
    refine ⟨nofun, nofun, nofun, nofun, ?_⟩
    exact (cutNanoKeeps digits _).mp (cutNanoCut digits u.time.nano)
  | year | month | day | minute | second =>
    constructor <;> simp [truncate, Date.firstOfYear, Date.firstOfMonth, Time.midnight, Precision.fields]

theorem truncateKeeps (u : DateTime) (p : Precision) : u.truncate p = u ↔ u.Cut p := by
  refine ⟨fun kept => kept ▸ u.truncateCut p, fun ⟨month, day, time, second, below, whole⟩ => ?_⟩
  have nano : p.places = 0 → u.time.nano = 0 := fun zero =>
    Nat.eq_zero_of_dvd_of_lt (by rwa [zero] at whole) below
  symm
  cases p with
  | year =>
    obtain ⟨hour, minute⟩ := time (by decide)
    exact ext rfl (month (by decide)) (day (by decide)) hour minute (second (by decide)) (nano rfl)
  | month =>
    obtain ⟨hour, minute⟩ := time (by decide)
    exact ext rfl rfl (day (by decide)) hour minute (second (by decide)) (nano rfl)
  | day =>
    obtain ⟨hour, minute⟩ := time (by decide)
    exact ext rfl rfl rfl hour minute (second (by decide)) (nano rfl)
  | minute => exact ext rfl rfl rfl rfl rfl (second (by decide)) (nano rfl)
  | second => exact ext rfl rfl rfl rfl rfl rfl (nano rfl)
  | fraction digits => exact ext rfl rfl rfl rfl rfl rfl ((cutNanoKeeps digits _).mpr ⟨below, whole⟩).symm

theorem cutPlaces (u : DateTime) (n : Nat) :
    u.Cut (.ofPlaces n) ↔ u.time.nano < 10 ^ 9 ∧ 10 ^ (9 - n) ∣ u.time.nano := by
  refine ⟨fun cut => ?_, fun nano => ⟨?_, ?_, ?_, ?_, ?_⟩⟩
  · simpa using cut.nano
  · simp
  · simp
  · simp
  · simp
  · simpa using nano

end DateTime

namespace Timestamp

variable {utc : DateTime} {offset : Option Int} {p : Precision} {t : Timestamp}

structure Fits (utc : DateTime) (offset : Option Int) (p : Precision) : Prop where
  year : 1 ≤ utc.date.year ∧ utc.date.year ≤ 9999
  digits : p.inRange = true
  offset : ∀ m ∈ keptOffset offset p, m.natAbs < minutesOfDay

theorem ofFits (fits : Fits utc offset p) : ∃ t, of utc offset p = .ok t ∧
    t.utc = utc.truncate p ∧ t.offset = keptOffset offset p ∧ t.precision = p := by
  rw [of, dif_pos ⟨fits.year, fits.digits, fits.offset⟩]
  exact ⟨_, rfl, rfl, rfl, rfl⟩

theorem ofOk (built : of utc offset p = .ok t) : Fits utc offset p ∧
    t.utc = utc.truncate p ∧ t.offset = keptOffset offset p ∧ t.precision = p := by
  unfold of at built
  split at built
  · rename_i fits
    cases built
    exact ⟨⟨fits.1, fits.2.1, fits.2.2⟩, rfl, rfl, rfl⟩
  · contradiction

theorem ofIff : of utc offset p = .ok t ↔ Fits utc offset p ∧
    t.utc = utc.truncate p ∧ t.offset = keptOffset offset p ∧ t.precision = p := by
  refine ⟨ofOk, fun ⟨fits, sameUtc, sameOffset, samePrecision⟩ => ?_⟩
  obtain ⟨u, built, moment, kept, precision⟩ := ofFits fits
  rw [built, ext (sameUtc.trans moment.symm) (sameOffset.trans kept.symm)
    (samePrecision.trans precision.symm)]

theorem leastDigitsLeast {digits n : Nat} (positive : 0 < n) (below : n < 10 ^ digits) :
    leastDigits digits n ≤ digits ∧
      ∀ d ≤ digits, 10 ^ (digits - d) ∣ n ↔ leastDigits digits n ≤ d := by
  fun_induction leastDigits digits n with
  | case1 digits n zero ih =>
    have tenth : n = 10 * (n / 10) := by omega
    obtain ⟨few, least⟩ := ih (by omega) (by rw [Nat.pow_succ] at below; omega)
    refine ⟨Nat.le_succ_of_le few, fun d most => ?_⟩
    rcases Nat.lt_or_eq_of_le most with fewer | rfl
    · have shifted : digits + 2 - d = digits + 1 - d + 1 := by omega
      rw [← least d (by omega), shifted, Nat.pow_succ', tenth, Nat.mul_dvd_mul_iff_left (by decide),
        Nat.mul_div_cancel_left _ (by decide)]
    · simp only [Nat.sub_self, Nat.pow_zero, Nat.one_dvd, true_iff]
      omega
  | case2 digits n last =>
    refine ⟨Nat.le_refl _, fun d most => ⟨fun whole => ?_, fun all => ?_⟩⟩
    · refine Nat.le_of_not_lt fun fewer => last (Nat.mod_eq_zero_of_dvd (Nat.dvd_trans ?_ whole))
      exact Nat.pow_dvd_pow 10 (show 1 ≤ _ by omega)
    · rw [Nat.le_antisymm most all]
      simp
  | case3 digits n single =>
    have one : digits = 1 := by
      rcases digits with _ | _ | more
      · rw [Nat.pow_zero] at below
        omega
      · rfl
      · exact (single more rfl).elim
    subst one
    refine ⟨Nat.le_refl 1, fun d most => ⟨fun whole => ?_, fun all => ?_⟩⟩
    · refine Nat.le_of_not_lt fun zero => Nat.not_le.mpr below (Nat.le_of_dvd positive ?_)
      rwa [Nat.lt_one_iff.mp zero] at whole
    · rw [Nat.le_antisymm most all]
      exact Nat.one_dvd n

def placesOf (nano : Nat) : Nat := if nano = 0 then 0 else leastDigits 9 nano

theorem placesLeast {nano : Nat} (below : nano < 10 ^ 9) :
    placesOf nano ≤ 9 ∧ ∀ d ≤ 9, 10 ^ (9 - d) ∣ nano ↔ placesOf nano ≤ d := by
  unfold placesOf
  split
  · rename_i zero
    exact ⟨Nat.zero_le 9, fun d _ => by simp [zero]⟩
  · exact leastDigitsLeast (by omega) below

theorem exactPlaces (below : utc.time.nano < 10 ^ 9) :
    exactPrecision utc = .ofPlaces (placesOf utc.time.nano) := by
  unfold exactPrecision placesOf
  rw [Nat.min_eq_left (by omega)]
  generalize utc.time.nano = nano at below
  cases nano with
  | zero => rfl
  | succ n =>
    have positive : 0 < leastDigits 9 (n + 1) := Nat.pos_of_ne_zero fun zero => by
      have whole := ((leastDigitsLeast (Nat.succ_pos n) below).2 0 (by decide)).mpr (Nat.le_of_eq zero)
      exact absurd (Nat.le_of_dvd (Nat.succ_pos n) whole) (Nat.not_le.mpr below)
    exact (Precision.ofPlacesSome positive).symm

theorem keptPlaces (offset : Option Int) (n : Nat) : keptOffset offset (.ofPlaces n) = offset := by
  simp [keptOffset, Precision.hasTime]

theorem instantFits {seconds : Int} {n : Nat} (year : 1 ≤ utc.date.year ∧ utc.date.year ≤ 9999)
    (day : seconds.natAbs < 86400) (few : n ≤ 9) :
    Fits utc (some (seconds.tdiv 60)) (.ofPlaces n) := by
  refine ⟨year, Precision.ofPlacesInRange few, fun m kept => ?_⟩
  rw [keptPlaces] at kept
  cases kept
  rw [Int.natAbs_tdiv]
  exact Nat.div_lt_of_lt_mul day

/-- An instant is kept to the last nanosecond, in the fewest places that do so, and nothing below its
precision is in any timestamp: it is built again from its moment, its offset and its precision. -/
theorem instantsCanonical :
    (∀ (utc : DateTime) (offsetSeconds : Int), utc.time.nano < 10 ^ 9 →
      1 ≤ utc.date.year ∧ utc.date.year ≤ 9999 → offsetSeconds.natAbs < 86400 →
      ∃ t places, ofInstantExact utc offsetSeconds = .ok t ∧ t.utc = utc ∧
        t.offset = some (offsetSeconds.tdiv 60) ∧ t.precision = .ofPlaces places ∧ places ≤ 9 ∧
        ∀ n ≤ 9, ∃ u, ofInstant utc offsetSeconds (.ofPlaces n) = .ok u ∧
          (u.utc = utc ↔ places ≤ n)) ∧
    ∀ t : Timestamp, of t.utc t.offset t.precision = .ok t ∧ t.utc.Cut t.precision ∧
      (t.precision.hasTime = false → t.offset = none) := by
  refine ⟨fun utc offsetSeconds below year day => ?_, fun t => ⟨Payload.ofKept t, ?_, fun date => ?_⟩⟩
  · obtain ⟨few, least⟩ := placesLeast below
    have keeps (n : Nat) (most : n ≤ 9) :
        utc.truncate (.ofPlaces n) = utc ↔ placesOf utc.time.nano ≤ n := by
      rw [DateTime.truncateKeeps, DateTime.cutPlaces, ← least n most]
      exact and_iff_right below
    obtain ⟨t, built, moment, offset, precision⟩ := ofFits (instantFits year day few)
    have whole := moment.trans ((keeps _ few).mpr (Nat.le_refl _))
    refine ⟨t, _, ?_, whole, ?_, precision, few, fun n most => ?_⟩
    · rw [ofInstantExact, exactPlaces below]
      exact built
    · rw [offset, keptPlaces]
    · obtain ⟨u, built, moment, -⟩ := ofFits (instantFits year day most)
      exact ⟨u, built, by rw [moment]; exact keeps n most⟩
  · exact (DateTime.truncateKeeps _ _).mp t.truncated
  · cases found : t.offset with
    | none => rfl
    | some m => simp [(t.offsetFits m found).1] at date

def leapEvening : DateTime := ⟨⟨2020, 2, 29, by decide⟩, ⟨22, 59, 59, 120000000, by decide⟩⟩

theorem leapEveningExact : ∃ t, ofInstantExact leapEvening 3600 = .ok t ∧ t.utc = leapEvening ∧
    t.offset = some 60 ∧ t.precision = .fraction 2 := by
  obtain ⟨t, places, built, moment, offset, -, -⟩ :=
    instantsCanonical.1 leapEvening 3600 (by decide) (by decide) (by decide)
  have cut : of leapEvening (some 60) (exactPrecision leapEvening) = .ok t := built
  obtain ⟨-, -, -, precision⟩ := ofOk cut
  have hundredths : exactPrecision leapEvening = .fraction 2 := by decide
  exact ⟨t, built, moment, offset, precision.trans hundredths⟩

end Timestamp

end Ion
