import Mathlib.Algebra.Group.Nat.Defs
import Ion.Wire.Atom
import Ion.Wire.Payload

/-! Written numbers read back: fixed and shortest big-endian bytes, signed magnitudes and the
variable-length forms, the latter as long as they fit 64 bits. -/
namespace Ion

namespace Bytes

theorem valueSnoc (raw : Bytes) (b : UInt8) : value (raw ++ [b]) = value raw * 256 + b.toNat := by
  simp [value]

theorem valueFrom (acc : Nat) (raw : Bytes) :
    raw.foldl (fun acc b => acc * 256 + b.toNat) acc = acc * 256 ^ raw.length + value raw := by
  induction raw generalizing acc with
  | nil => simp [value]
  | cons b rest ih =>
    rw [value, List.foldl_cons, List.foldl_cons, ih, ih (0 * 256 + b.toNat), List.length_cons,
      Nat.pow_succ]
    simp only [Nat.add_mul, Nat.zero_mul, Nat.zero_add, Nat.mul_assoc, Nat.mul_comm 256,
      Nat.add_assoc]

theorem valueCons (b : UInt8) (raw : Bytes) :
    value (b :: raw) = b.toNat * 256 ^ raw.length + value raw := by
  rw [value, List.foldl_cons, valueFrom, Nat.zero_mul, Nat.zero_add]

theorem valueBound (raw : Bytes) : value raw < 256 ^ raw.length := by
  induction raw with
  | nil => simp [value]
  | cons b rest ih =>
    have byte : b.toNat + 1 ≤ 256 := b.toNat_lt
    have step := Nat.mul_le_mul_right (256 ^ rest.length) byte
    rw [valueCons, List.length_cons, Nat.pow_succ]
    rw [Nat.add_mul] at step
    omega

theorem lowByte (n : Nat) : (UInt8.ofNat (n % 256)).toNat = n % 256 := by
  rw [UInt8.toNat_ofNat']
  omega

theorem valueShortest (n : Nat) : value (shortest n) = n := by
  induction n using shortest.induct with
  | case1 => simp [shortest, value]
  | case2 n positive ih =>
    rw [shortest, if_neg positive, valueSnoc, ih, lowByte]
    omega

theorem shortestLengthLe (width : Nat) {n : Nat} (fits : n < 256 ^ width) :
    (shortest n).length ≤ width := by
  induction width generalizing n with
  | zero =>
    have zero : n = 0 := by simpa using fits
    simp [shortest, zero]
  | succ width ih =>
    rw [shortest]
    split
    · simp
    · have higher : n / 256 < 256 ^ width := by
        rw [Nat.pow_succ] at fits
        omega
      simpa using ih higher

theorem valueBeLow (width n : Nat) : value (be width n) = n % 256 ^ width := by
  induction width generalizing n with
  | zero => rw [Nat.pow_zero, Nat.mod_one]; rfl
  | succ width ih => rw [be, valueSnoc, ih, lowByte, Nat.pow_succ', Nat.mod_mul, Nat.add_comm, Nat.mul_comm]

theorem valueBe (width : Nat) {n : Nat} (fits : n < 256 ^ width) : value (be width n) = n :=
  (valueBeLow width n).trans (Nat.mod_eq_of_lt fits)

theorem textOfText (text : String) : text? (ofText text) = some text := by
  have raw : (ofText text).toByteArray = text.toByteArray := ByteArray.ext (by simp [ofText])
  have valid : text.toByteArray.IsValidUTF8 := text.isValidUTF8
  rw [text?, raw, String.fromUTF8?, dif_pos valid]
  rfl

theorem wordValue {raw : Bytes} (short : raw.length ≤ 8) : (Payload.word raw).toNat = value raw := by
  have bits (acc : UInt64) (n : Nat) (same : acc.toNat = n % 2 ^ 64) :
      (raw.foldl (fun acc b => acc * 256 + b.toUInt64) acc).toNat =
        raw.foldl (fun acc b => acc * 256 + b.toNat) n % 2 ^ 64 := by
    clear short
    induction raw generalizing acc n with
    | nil => exact same
    | cons b rest ih =>
      refine ih _ _ ?_
      rw [UInt64.toNat_add, UInt64.toNat_mul, same, UInt8.toNat_toUInt64]
      simp [Nat.add_mod, Nat.mul_mod]
  have bound := Nat.lt_of_lt_of_le (valueBound raw) (Nat.pow_le_pow_right (by decide) short)
  rw [Payload.word, bits 0 0 rfl]
  exact Nat.mod_eq_of_lt bound

theorem intMagnitudeValue (raw : Bytes) : Payload.intMagnitude raw = value raw := by
  unfold Payload.intMagnitude
  split
  · exact wordValue ‹_›
  · rfl

end Bytes

theorem Payload.signedNatAbs (n : Int) : signed (n < 0) n.natAbs = n := by
  simp only [signed, decide_eq_true_eq]
  split <;> omega

theorem Wire.signedMagnitudeReads (n : Int) :
    ∃ raw, Cursor.signMagnitude (signedMagnitude n) = (decide (n < 0), raw) ∧
      Bytes.value raw = n.natAbs := by
  have magnitude := Bytes.valueShortest n.natAbs
  unfold signedMagnitude
  cases digits : Bytes.shortest n.natAbs with
  | nil =>
    rw [digits] at magnitude
    have zero : n = 0 := by simpa [Bytes.value] using magnitude.symm
    exact ⟨[], by simp [Cursor.signMagnitude, zero], magnitude⟩
  | cons b rest =>
    rw [digits] at magnitude
    have byte := b.toNat_lt
    by_cases high : 128 ≤ b.toNat
    · refine ⟨0 :: b :: rest, ?_, by rw [Bytes.valueCons, magnitude]; simp⟩
      by_cases negative : n < 0 <;> simp [negative, high, Cursor.signMagnitude]
    · refine ⟨b :: rest, ?_, magnitude⟩
      have low : b.toNat < 128 := by omega
      have shared : (128 + b.toNat) % 256 = 128 + b.toNat := by omega
      by_cases negative : n < 0
      · simp [negative, high, shared, low, Nat.mod_eq_of_lt, Cursor.signMagnitude]
      · simp [negative, high, low, Nat.mod_eq_of_lt, Cursor.signMagnitude]

namespace VarUInt

def Carries (acc : Nat) (raw : Bytes) (n : Nat) : Prop :=
  ∀ tail, digits acc (raw ++ tail) =
    (digits n tail).map fun (m, used) => (m, used + raw.length)

theorem carriesNothing (n : Nat) : Carries n [] n := by
  intro tail
  rw [List.nil_append]
  cases digits n tail <;> rfl

theorem carriesSnoc {acc n : Nat} {raw : Bytes} {b : UInt8} (before : Carries acc raw n)
    (room : n < roomLimit) (unmarked : b.toNat < 128) :
    Carries acc (raw ++ [b]) (n * 128 + b.toNat) := by
  intro tail
  have next : digits n (b :: tail) =
      (digits (n * 128 + b.toNat) tail).map fun (m, used) => (m, used + 1) := by
    rw [digits, if_neg (by omega), if_neg (by omega), Nat.mod_eq_of_lt unmarked]
    cases digits (n * 128 + b.toNat) tail <;> rfl
  rw [List.append_assoc, List.singleton_append, before, next]
  cases digits (n * 128 + b.toNat) tail with
  | error e => rfl
  | ok found => simp [Except.map, Nat.add_assoc, Nat.add_comm 1]

theorem lastDigit {acc n : Nat} {raw : Bytes} (before : Carries acc raw (n / 128))
    (fits : n < 2 ^ 64) (tail : Bytes) :
    digits acc (raw ++ UInt8.ofNat (128 + n % 128) :: tail) = .ok (n, raw.length + 1) := by
  have marked : (UInt8.ofNat (128 + n % 128)).toNat = 128 + n % 128 := by
    rw [UInt8.toNat_ofNat']
    omega
  have digit : (128 + n % 128) % 128 = n % 128 := by omega
  have whole : n / 128 * 128 + n % 128 = n := by omega
  have room : n / 128 < roomLimit := by
    unfold roomLimit
    omega
  rw [before, digits, if_neg (by omega), marked, if_pos (by omega), digit, whole]
  simp [Except.map, Nat.add_comm]

theorem openDigit (n : Nat) : (UInt8.ofNat (n % 128)).toNat = n % 128 := by
  rw [UInt8.toNat_ofNat']
  omega

theorem openCarries {n : Nat} (fits : n < 2 ^ 64) : Carries 0 (openDigits n) n := by
  induction n using openDigits.induct with
  | case1 =>
    rw [openDigits, if_pos rfl]
    exact carriesNothing 0
  | case2 n positive ih =>
    have before := ih (by omega)
    have room : n / 128 < roomLimit := by
      unfold roomLimit
      omega
    have digit := openDigit n
    have step := carriesSnoc (b := UInt8.ofNat (n % 128)) before room (by omega)
    rw [digit, show n / 128 * 128 + n % 128 = n by omega] at step
    rw [openDigits, if_neg positive]
    exact step

theorem decodeEncode {n : Nat} (fits : n < 2 ^ 64) (tail : Bytes) :
    decode (encode n ++ tail) = .ok (n, (encode n).length) := by
  have before : Carries 0 (openDigits (n / 128)) (n / 128) := openCarries (by omega)
  rw [decode, encode, List.append_assoc, List.singleton_append, lastDigit before fits]
  simp

theorem encodeNotEmpty (n : Nat) : 0 < (encode n).length := by simp [encode]

end VarUInt

namespace VarInt

theorem signBitLe (negative : Bool) : signBit negative = 0 ∨ signBit negative = 64 := by
  cases negative
  · exact .inl rfl
  · exact .inr rfl

theorem signBitSign (negative : Bool) {n : Nat} (small : n < 64) :
    ((signBit negative + n) / 64 % 2 == 1) = negative := by
  cases negative
  · simp [show signBit false = 0 from rfl, Nat.div_eq_of_lt small]
  · have div : (64 + n) / 64 = 1 := by omega
    simp [show signBit true = 64 from rfl, div]

theorem openCarries (negative : Bool) {n : Nat} (fits : n < 2 ^ 64) :
    ∃ first rest, openDigits negative n = first :: rest ∧ first.toNat < 128 ∧
      (first.toNat / 64 % 2 == 1) = negative ∧ VarUInt.Carries (first.toNat % 64) rest n := by
  have bit := signBitLe negative
  induction n using openDigits.induct with
  | case1 n small =>
    have byte : (UInt8.ofNat (signBit negative + n)).toNat = signBit negative + n := by
      rw [UInt8.toNat_ofNat']
      omega
    have mod : (signBit negative + n) % 64 = n := by omega
    refine ⟨UInt8.ofNat (signBit negative + n), [], by rw [openDigits, if_pos small], ?_⟩
    rw [byte, mod]
    exact ⟨by omega, signBitSign negative small, VarUInt.carriesNothing n⟩
  | case2 n large ih =>
    obtain ⟨first, rest, shape, unmarked, sign, carries⟩ := ih (by omega)
    have room : n / 128 < VarUInt.roomLimit := by
      unfold VarUInt.roomLimit
      omega
    have digit := VarUInt.openDigit n
    have step := VarUInt.carriesSnoc (b := UInt8.ofNat (n % 128)) carries room (by omega)
    rw [digit, show n / 128 * 128 + n % 128 = n by omega] at step
    refine ⟨first, rest ++ [UInt8.ofNat (n % 128)], ?_, unmarked, sign, step⟩
    rw [openDigits, if_neg large, shape, List.cons_append]

theorem decodeEncode (negative : Bool) {n : Nat} (fits : n < 2 ^ 64) (tail : Bytes) :
    decode (encode negative n ++ tail) = .ok (negative, n, (encode negative n).length) := by
  rw [encode]
  split
  · rename_i small
    have bit := signBitLe negative
    have byte : (UInt8.ofNat (128 + signBit negative + n)).toNat = 128 + signBit negative + n := by
      rw [UInt8.toNat_ofNat']
      omega
    have mod : (128 + signBit negative + n) % 64 = n := by omega
    have sign : (128 + signBit negative + n) / 64 % 2 = (signBit negative + n) / 64 % 2 := by omega
    rw [List.singleton_append, decode, byte, if_pos (by omega), mod, sign,
      signBitSign negative small]
    rfl
  · obtain ⟨first, rest, shape, unmarked, sign, carries⟩ :=
      openCarries negative (n := n / 128) (by omega)
    rw [shape, List.append_assoc, List.cons_append, List.singleton_append, decode,
      if_neg (by omega), sign, VarUInt.lastDigit carries fits]
    simp [bind, Except.bind, pure, Except.pure]

end VarInt

end Ion
