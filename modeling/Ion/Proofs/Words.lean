import Mathlib.Data.List.ModifyLast
import Ion.Proofs.Lengths

/-! Variable-length numbers of 64 bits as they are written from a word: the length is taken from the bits,
every digit is shifted from its place, and the sign and the mark are set last. -/
namespace Ion

namespace VarUInt

def lowDigits (k : Nat) (n : UInt64) : Bytes :=
  (List.range k).map fun i => (n >>> UInt64.ofNat (7 * (k - 1 - i)) &&& 0x7f).toUInt8

def ofWord (n : UInt64) : Bytes := (lowDigits (length n.toNat) n).modifyLast (· ||| 0x80)

theorem shiftedBy {k : Nat} (within : k < 64) (n : UInt64) : (n >>> UInt64.ofNat k).toNat = n.toNat >>> k := by
  have place : (UInt64.ofNat k).toNat % 64 = k := by
    rw [UInt64.toNat_ofNat']
    omega
  rw [UInt64.toNat_shiftRight, place]

theorem shiftedDown (n : UInt64) : (n >>> 7).toNat = n.toNat / 128 :=
  (shiftedBy (k := 7) (by decide) n).trans (Nat.shiftRight_eq_div_pow n.toNat 7)

theorem lowDigit (n : UInt64) : (n &&& 0x7f).toUInt8 = UInt8.ofNat (n.toNat % 128) := by
  refine UInt8.toNat_inj.mp ?_
  have masked : (n &&& 0x7f).toNat = n.toNat % 128 := by
    rw [UInt64.toNat_and]
    exact Nat.and_two_pow_sub_one_eq_mod n.toNat 7
  rw [UInt64.toNat_toUInt8, masked, UInt8.toNat_ofNat']

theorem markedDigit {d : Nat} (digit : d < 128) : UInt8.ofNat d ||| 0x80 = UInt8.ofNat (128 + d) := by
  decide +revert

theorem lowDigitsSnoc {k : Nat} (few : k < 10) (n : UInt64) :
    lowDigits (k + 1) n = lowDigits k (n >>> 7) ++ [UInt8.ofNat (n.toNat % 128)] := by
  -- up to ten digits no place is as far as the word is long, so that shifts add up
  have shifted (i : Nat) (before : i < k) :
      n >>> UInt64.ofNat (7 * (k - i)) = n >>> 7 >>> UInt64.ofNat (7 * (k - 1 - i)) := by
    have places : 7 * (k - i) = 7 + 7 * (k - 1 - i) := by omega
    refine UInt64.toNat_inj.mp ?_
    rw [shiftedBy (by omega), shiftedBy (by omega), places, Nat.shiftRight_add]
    exact congrArg (· >>> _) (shiftedBy (k := 7) (by decide) n).symm
  have last : n >>> UInt64.ofNat (7 * (k - k)) = n := by
    rw [Nat.sub_self]
    exact UInt64.shiftRight_zero
  rw [lowDigits, List.range_succ, List.map_append, List.map_singleton, Nat.add_sub_cancel, last, lowDigit]
  refine congrArg (· ++ _) (List.map_congr_left fun i inside => ?_)
  rw [shifted i (List.mem_range.mp inside)]

theorem openDigitsWord {k : Nat} (n : UInt64) (length : (openDigits n.toNat).length = k) :
    openDigits n.toNat = lowDigits k n := by
  have few : k ≤ 10 := length ▸ openDigitsIff.mpr (Nat.lt_trans n.toNat_lt (by decide))
  induction k generalizing n with
  | zero => exact List.eq_nil_of_length_eq_zero length
  | succ k ih =>
    rw [openDigits] at length ⊢
    split at length
    · contradiction
    · rename_i large
      rw [List.length_append, List.length_singleton, Nat.add_right_cancel_iff, ← shiftedDown] at length
      rw [if_neg large, lowDigitsSnoc (by omega), ← ih (n >>> 7) length (by omega), shiftedDown]

theorem encodeWord (n : UInt64) : encode n.toNat = ofWord n := by
  have room : length n.toNat ≤ 10 := lengthIff.mpr ⟨by decide, Nat.lt_trans n.toNat_lt (by decide)⟩
  have places := encodeLength n.toNat
  rw [encode, List.length_append, List.length_singleton, ← shiftedDown] at places
  rw [ofWord, ← places, lowDigitsSnoc (by omega), ← openDigitsWord (n >>> 7) rfl, List.modifyLast_concat,
    markedDigit (Nat.mod_lt _ (by decide)), shiftedDown, encode]

end VarUInt

namespace VarInt

open VarUInt (lowDigits lowDigitsSnoc shiftedDown markedDigit)

def ofWord (negative : Bool) (n : UInt64) : Bytes :=
  ((lowDigits (length n.toNat) n).modifyHead (· ||| UInt8.ofNat (signBit negative))).modifyLast (· ||| 0x80)

theorem signedDigit (negative : Bool) {d : Nat} (digit : d < 64) :
    UInt8.ofNat d ||| UInt8.ofNat (signBit negative) = UInt8.ofNat (signBit negative + d) := by
  decide +revert

theorem openDigitsWord {negative : Bool} {k : Nat} (n : UInt64)
    (length : (openDigits negative n.toNat).length = k) :
    openDigits negative n.toNat = (lowDigits k n).modifyHead (· ||| UInt8.ofNat (signBit negative)) := by
  have fits := n.toNat_lt
  have few : k ≤ 10 := length ▸ openDigitsIff.mpr ⟨by decide, by omega⟩
  induction k generalizing n with
  | zero => exact absurd (openDigitsIff.mp (Nat.le_of_eq length)).1 (Nat.lt_irrefl 0)
  | succ k ih =>
    rw [openDigits] at length ⊢
    rw [lowDigitsSnoc (by omega)]
    split at length
    · rename_i small
      cases length
      rw [if_pos small, ← signedDigit negative small, Nat.mod_eq_of_lt (by omega)]
      rfl
    · rename_i large
      rw [List.length_append, List.length_singleton, Nat.add_right_cancel_iff, ← shiftedDown] at length
      -- the sign belongs to a digit further up, since there is one
      have positive : 0 < k := (openDigitsIff.mp (Nat.le_of_eq length)).1
      rw [if_neg large, ← shiftedDown, ih (n >>> 7) length (n >>> 7).toNat_lt (by omega)]
      cases digits : lowDigits k (n >>> 7) with
      | nil =>
        have short := congrArg List.length digits
        rw [lowDigits, List.length_map, List.length_range] at short
        exact absurd short (Nat.ne_of_gt positive)
      | cons b rest => rfl

theorem encodeMarks (negative : Bool) (n : Nat) :
    encode negative n = (openDigits negative n).modifyLast (· ||| 0x80) := by
  have sign : signBit negative ≤ 64 := by cases negative <;> decide
  rw [encode, openDigits.eq_def negative n]
  split
  · rw [← List.nil_append [UInt8.ofNat (signBit negative + n)], List.modifyLast_concat,
      markedDigit (by omega), Nat.add_assoc, List.nil_append]
  · rw [List.modifyLast_concat, markedDigit (Nat.mod_lt _ (by decide))]

theorem encodeWord (negative : Bool) (n : UInt64) : encode negative n.toNat = ofWord negative n := by
  have places := encodeLength negative n.toNat
  rw [encodeOpen] at places
  rw [ofWord, encodeMarks, openDigitsWord n places]

end VarInt

end Ion
