import Mathlib.Data.List.Infix
import Ion.Proofs.Slices

/-! Every outcome of reading a variable-length number, over any bytes. The limit the loop compares with
before it shifts is the bound on the number itself: no bit is shifted out of a word of 64, however many
digits are zeros. -/
namespace Ion

namespace Groups

def ofBytes : Bytes → Bytes
  | [] => []
  | b :: rest => if 128 ≤ b.toNat then [b] else b :: ofBytes rest

def continued (n : Nat) (groups : Bytes) : Nat := groups.foldl (fun n b => n * 128 + b.toNat % 128) n

def value (groups : Bytes) : Nat := continued 0 groups

def magnitude : Bytes → Nat
  | [] => 0
  | b :: rest => continued (b.toNat % 64) rest

def negative : Bytes → Bool
  | [] => false
  | b :: _ => b.toNat / 64 % 2 == 1

variable {n : Nat} {b : UInt8} {rest : Bytes}

theorem isPrefix (raw : Bytes) : ofBytes raw <+: raw := by
  induction raw with
  | nil => exact List.prefix_rfl
  | cons b rest ih =>
    rw [ofBytes]
    split
    · exact ⟨rest, rfl⟩
    · exact (List.prefix_cons_inj b).mpr ih

theorem exceedsCons (fits : n < 2 ^ 64) :
    (∃ front ∈ (b :: rest).inits, 2 ^ 64 ≤ continued n front) ↔
      ∃ front ∈ rest.inits, 2 ^ 64 ≤ continued (n * 128 + b.toNat % 128) front := by
  have small : ¬2 ^ 64 ≤ continued n [] := Nat.not_le.mpr fits
  rw [List.inits_cons, List.exists_mem_cons_iff, or_iff_right small]
  simp [continued]

theorem exceedsNothing : (∃ front ∈ List.inits [], 2 ^ 64 ≤ continued n front) ↔ 2 ^ 64 ≤ n := by
  simp [continued]

theorem exceedsOnward (large : 2 ^ 64 ≤ n) (groups : Bytes) :
    ∃ front ∈ groups.inits, 2 ^ 64 ≤ continued n front :=
  ⟨[], (List.mem_inits _ _).mpr groups.nil_prefix, large⟩

end Groups

open Groups

theorem VarUInt.digitsOutcome {n : Nat} (fits : n < 2 ^ 64) (raw : Bytes) :
    digits n raw =
      if ∃ front ∈ (ofBytes raw).inits, 2 ^ 64 ≤ continued n front then .error .overflow
      else if (ofBytes raw).all (·.toNat < 128) then .error .endOfInput
      else .ok (continued n (ofBytes raw), (ofBytes raw).length) := by
  induction raw generalizing n with
  | nil =>
    rw [ofBytes, if_neg (mt exceedsNothing.mp (Nat.not_le.mpr fits)), if_pos List.all_nil]
    rfl
  | cons b rest ih =>
    have digit := Nat.mod_lt b.toNat (show 128 > 0 by decide)
    rw [digits, ofBytes]
    by_cases full : roomLimit ≤ n
    · have large : 2 ^ 64 ≤ n * 128 + b.toNat % 128 := by
        unfold roomLimit at full
        omega
      rw [if_pos full]
      split <;> rw [if_pos ((exceedsCons fits).mpr (exceedsOnward large _))]
    · have room : n * 128 + b.toNat % 128 < 2 ^ 64 := by
        unfold roomLimit at full
        omega
      rw [if_neg full]
      by_cases marked : 128 ≤ b.toNat
      · rw [if_pos marked, if_pos marked, if_neg, if_neg]
        · rfl
        · simp [marked]
        · rw [exceedsCons fits, exceedsNothing]
          exact Nat.not_le.mpr room
      · -- an open digit only goes over into the number so far
        have open_ : decide (b.toNat < 128) = true := decide_eq_true (Nat.not_le.mp marked)
        rw [if_neg marked, if_neg marked, ih room]
        simp only [exceedsCons fits, List.all_cons, open_, Bool.true_and]
        split
        · rfl
        · split <;> rfl

theorem VarInt.decodeOutcome (raw : Bytes) :
    decode raw =
      if ∃ front ∈ (ofBytes raw).inits, 2 ^ 64 ≤ magnitude front then .error .overflow
      else if (ofBytes raw).all (·.toNat < 128) then .error .endOfInput
      else .ok (negative (ofBytes raw), magnitude (ofBytes raw), (ofBytes raw).length) := by
  cases raw with
  | nil =>
    rw [ofBytes, if_neg (by simp [magnitude]), if_pos List.all_nil]
    rfl
  | cons b rest =>
    have digit := Nat.mod_lt b.toNat (show 64 > 0 by decide)
    have fits : b.toNat % 64 < 2 ^ 64 := by omega
    have exceeds (groups : Bytes) : (∃ front ∈ (b :: groups).inits, 2 ^ 64 ≤ magnitude front) ↔
        ∃ front ∈ groups.inits, 2 ^ 64 ≤ continued (b.toNat % 64) front := by
      rw [List.inits_cons, List.exists_mem_cons_iff]
      simp [magnitude]
    rw [decode, ofBytes]
    by_cases marked : 128 ≤ b.toNat
    · rw [if_pos marked, if_pos marked, if_neg, if_neg]
      · rfl
      · simp [marked]
      · rw [exceeds, exceedsNothing]
        exact Nat.not_le.mpr fits
    · have open_ : decide (b.toNat < 128) = true := decide_eq_true (Nat.not_le.mp marked)
      rw [if_neg marked, if_neg marked, VarUInt.digitsOutcome fits]
      simp only [exceeds, List.all_cons, open_, Bool.true_and]
      split
      · rfl
      · split <;> rfl

theorem VarUInt.zerosLead (zeros : Nat) (raw : Bytes) :
    digits 0 (List.replicate zeros 0 ++ raw) =
      (decode raw).map fun (n, used) => (n, used + zeros) := by
  induction zeros with
  | zero =>
    rw [List.replicate_zero, List.nil_append, decode]
    cases digits 0 raw <;> rfl
  | succ zeros ih =>
    have next (rest : Bytes) : digits 0 (0 :: rest) = (digits 0 rest).map fun (n, used) => (n, used + 1) := by
      rw [digits, if_neg (by decide), if_neg (by decide)]
      change (digits 0 rest).bind _ = _
      cases digits 0 rest <;> rfl
    rw [List.replicate_succ, List.cons_append, next, ih]
    cases decode raw <;> rfl

theorem VarInt.zerosLead (sign : Bool) (zeros : Nat) (raw : Bytes) :
    decode (UInt8.ofNat (signBit sign) :: (List.replicate zeros 0 ++ raw)) =
      (VarUInt.decode raw).map fun (n, used) => (sign, n, used + zeros + 1) := by
  have first : (UInt8.ofNat (signBit sign)).toNat = signBit sign := by cases sign <;> rfl
  have six : signBit sign % 64 = 0 := by cases sign <;> rfl
  have told : (signBit sign / 64 % 2 == 1) = sign := by cases sign <;> rfl
  have open_ : ¬128 ≤ signBit sign := by cases sign <;> decide
  rw [decode, first, if_neg open_, six, told, VarUInt.zerosLead]
  cases VarUInt.decode raw <;> rfl

namespace VarUInt

def wordDigits (acc : UInt64) : Bytes → Except ReadError (UInt64 × Nat)
  | [] => .error .endOfInput
  | b :: rest =>
    if (0xffffffffffffffff : UInt64) >>> 7 < acc then .error .overflow
    else if 0x80 ≤ b then .ok (acc <<< 7 ||| (b &&& 0x7f).toUInt64, 1)
    else do
      let (n, used) ← wordDigits (acc <<< 7 ||| (b &&& 0x7f).toUInt64) rest
      return (n, used + 1)

theorem shiftedWord {acc : UInt64} (room : acc.toNat < roomLimit) (b : UInt8) :
    (acc <<< 7 ||| (b &&& 0x7f).toUInt64).toNat = acc.toNat * 128 + b.toNat % 128 := by
  have digit : (b &&& 0x7f).toUInt64.toNat = b.toNat % 128 := by
    rw [UInt8.toNat_toUInt64, UInt8.toNat_and]
    exact Nat.and_two_pow_sub_one_eq_mod b.toNat 7
  -- with room for a digit no bit is lost
  have kept : (acc <<< 7).toNat = acc.toNat <<< 7 := by
    unfold roomLimit at room
    rw [UInt64.toNat_shiftLeft]
    refine Nat.mod_eq_of_lt ?_
    change acc.toNat <<< 7 < _
    rw [Nat.shiftLeft_eq]
    omega
  rw [UInt64.toNat_or, digit, kept, ← Nat.shiftLeft_add_eq_or_of_lt (Nat.mod_lt _ (by decide)), Nat.shiftLeft_eq]

theorem digitsOfWords (acc : UInt64) (raw : Bytes) :
    digits acc.toNat raw = (wordDigits acc raw).map fun (n, used) => (n.toNat, used) := by
  induction raw generalizing acc with
  | nil => rfl
  | cons b rest ih =>
    have full : (0xffffffffffffffff : UInt64) >>> 7 < acc ↔ roomLimit ≤ acc.toNat := UInt64.lt_iff_toNat_lt
    have marked : 0x80 ≤ b ↔ 128 ≤ b.toNat := UInt8.le_iff_toNat_le
    rw [digits, wordDigits]
    by_cases room : acc.toNat < roomLimit
    · have small := Nat.not_le.mpr room
      rw [if_neg small, if_neg (mt full.mp small), ← shiftedWord room b, ih]
      by_cases last : 128 ≤ b.toNat
      · rw [if_pos last, if_pos (marked.mpr last)]
        rfl
      · rw [if_neg last, if_neg (mt marked.mp last)]
        cases wordDigits (acc <<< 7 ||| (b &&& 0x7f).toUInt64) rest <;> rfl
    · have large := Nat.not_lt.mp room
      rw [if_pos large, if_pos (full.mpr large)]
      rfl

end VarUInt

theorem Cursor.numberOutcome {decode : Bytes → Except ReadError (α × Nat)} {c : Cursor} {p q : Prop}
    [Decidable p] [Decidable q] {a : α} {used : Nat}
    (outcome : decode c.rest =
      if p then .error .overflow else if q then .error .endOfInput else .ok (a, used)) :
    number decode c =
      if p then .error .overflow c else if q then .error .endOfInput c else .ok a (c.advance used) := by
  rw [number, outcome]
  by_cases large : p
  · rw [if_pos large, if_pos large]
  · rw [if_neg large, if_neg large]
    by_cases cut : q
    · rw [if_pos cut, if_pos cut]
    · rw [if_neg cut, if_neg cut]

/-- The outcome of a read from any place in any bytes: too large if some of its groups are, else cut short
if no group is marked, else the number of all groups, and only then the cursor moves. Leading zeros change
nothing, the sign of zero is told, and words of 64 bits are enough for the loop. -/
theorem variableLengthOutcomes (data : Bytes) (x stop : Nat) :
    let c := Cursor.window data x stop
    let groups := Groups.ofBytes c.rest
    let behind := Cursor.window data (x + groups.length) stop
    groups.length ≤ stop - x ∧
      (Cursor.varUInt c =
        if ∃ front ∈ groups.inits, 2 ^ 64 ≤ Groups.value front then .error .overflow c
        else if groups.all (·.toNat < 128) then .error .endOfInput c
        else .ok (Groups.value groups) behind) ∧
      (Cursor.varInt c =
        if ∃ front ∈ groups.inits, 2 ^ 64 ≤ Groups.magnitude front then .error .overflow c
        else if groups.all (·.toNat < 128) then .error .endOfInput c
        else .ok (Groups.negative groups, Groups.magnitude groups) behind) ∧
      (∀ zeros raw, VarUInt.decode (List.replicate zeros 0 ++ raw) =
        (VarUInt.decode raw).map fun (n, used) => (n, used + zeros)) ∧
      (∀ negative zeros raw,
        VarInt.decode (UInt8.ofNat (VarInt.signBit negative) :: (List.replicate zeros 0 ++ raw)) =
          (VarUInt.decode raw).map fun (n, used) => (negative, n, used + zeros + 1)) ∧
      ∀ acc raw, VarUInt.digits acc.toNat raw =
        (VarUInt.wordDigits acc raw).map fun (n, used) => (n.toNat, used) := by
  intro c groups behind
  have moved : c.advance groups.length = behind := Cursor.windowAdvance _ _ _ _
  have within : groups.length ≤ stop - x := by
    have rest : c.rest.length ≤ stop - x := by
      simp only [c, Cursor.window, List.length_drop, List.length_take]
      omega
    exact Nat.le_trans (Groups.isPrefix c.rest).length_le rest
  refine ⟨within, ?_, ?_, VarUInt.zerosLead, VarInt.zerosLead, VarUInt.digitsOfWords⟩
  · rw [← moved]
    exact Cursor.numberOutcome (VarUInt.digitsOutcome (by decide) c.rest)
  · rw [← moved]
    refine Cursor.numberOutcome ?_
    rw [VarInt.decodeOutcome]
    split
    · rfl
    · split <;> rfl

-- Zeros are never too large, and zero has a negative form of any length.
example : Cursor.varUInt (.ofBytes (List.replicate 11 0)) =
      .error .endOfInput (.ofBytes (List.replicate 11 0)) ∧
    Cursor.varInt (.ofBytes [0x40, 0, 0x80]) = .ok (true, 0) ⟨3, 3, []⟩ := ⟨rfl, rfl⟩

end Ion
