import Mathlib.Data.Nat.Basic
import Mathlib.Order.Basic
import Ion.Proofs.Numbers

/-! How long written numbers are. A number of bytes is enough exactly below a power, so the length that
is computed from the bits is the one at which writing arrives, and no fewer bytes read back as the number. -/
namespace Ion

namespace Bytes

theorem bitLengthIff {n k : Nat} : bitLength n ≤ k ↔ n < 2 ^ k := by
  unfold bitLength
  split
  · rename_i zero
    rw [zero]
    exact iff_of_true (Nat.zero_le k) (Nat.pow_pos (by decide))
  · rename_i positive
    rw [← Nat.log2_lt positive, Nat.succ_le_iff]

theorem shortestLengthIff {n k : Nat} : shortestLength n ≤ k ↔ n < 256 ^ k := by
  have power : 256 ^ k = 2 ^ (8 * k) := by rw [Nat.pow_mul]
  rw [power, ← bitLengthIff, shortestLength]
  omega

theorem shortestIff {n k : Nat} : (shortest n).length ≤ k ↔ n < 256 ^ k := by
  refine ⟨fun long => ?_, shortestLengthLe k⟩
  have bound := valueBound (shortest n)
  rw [valueShortest] at bound
  exact Nat.lt_of_lt_of_le bound (Nat.pow_le_pow_right (by decide) long)

theorem lengthShortest (n : Nat) : (shortest n).length = shortestLength n :=
  eq_of_forall_ge_iff fun _ => shortestIff.trans shortestLengthIff.symm

end Bytes

namespace VarUInt

theorem lengthIff {n k : Nat} : length n ≤ k ↔ 0 < k ∧ n < 128 ^ k := by
  have power : 128 ^ k = 2 ^ (7 * k) := by rw [Nat.pow_mul]
  rw [power, ← Bytes.bitLengthIff, length]
  omega

theorem openDigitsIff {n k : Nat} : (openDigits n).length ≤ k ↔ n < 128 ^ k := by
  induction k generalizing n with
  | zero =>
    rw [openDigits]
    split
    · simp_all
    · rw [List.length_append, List.length_singleton]
      omega
  | succ k ih =>
    have higher : n / 128 < 128 ^ k ↔ n < 128 ^ (k + 1) := by
      rw [Nat.div_lt_iff_lt_mul (by decide), Nat.pow_succ]
    rw [openDigits]
    split
    · rename_i zero
      rw [zero]
      exact iff_of_true (Nat.zero_le (k + 1)) (Nat.pow_pos (by decide))
    · rw [List.length_append, List.length_singleton, Nat.add_le_add_iff_right, ih, higher]

theorem encodeIff {n k : Nat} : (encode n).length ≤ k ↔ 0 < k ∧ n < 128 ^ k := by
  rw [encode, List.length_append, List.length_singleton]
  cases k with
  | zero => simp
  | succ k =>
    rw [Nat.add_le_add_iff_right, openDigitsIff, Nat.div_lt_iff_lt_mul (by decide), Nat.pow_succ]
    simp

theorem encodeLength (n : Nat) : (encode n).length = length n :=
  eq_of_forall_ge_iff fun _ => encodeIff.trans lengthIff.symm

theorem digitsBound {acc n used : Nat} {raw : Bytes} (read : digits acc raw = .ok (n, used)) :
    n < (acc + 1) * 128 ^ used := by
  induction raw generalizing acc n used with
  | nil => contradiction
  | cons b rest ih =>
    have digit := Nat.mod_lt b.toNat (show 128 > 0 by decide)
    rw [digits] at read
    split at read
    · contradiction
    · split at read
      · cases read
        omega
      · cases later : digits (acc * 128 + b.toNat % 128) rest with
        | error e => simp [later, bind, Except.bind] at read
        | ok found =>
          obtain ⟨m, k⟩ := found
          simp only [later, bind, Except.bind, pure, Except.pure, Except.ok.injEq,
            Prod.mk.injEq] at read
          obtain ⟨rfl, rfl⟩ := read
          calc m < (acc * 128 + b.toNat % 128 + 1) * 128 ^ k := ih later
            _ ≤ (acc + 1) * 128 * 128 ^ k := Nat.mul_le_mul_right _ (by omega)
            _ = (acc + 1) * 128 ^ (k + 1) := by rw [Nat.mul_assoc, Nat.pow_succ']

theorem decodeLength {raw : Bytes} {n used : Nat} (read : decode raw = .ok (n, used)) :
    length n ≤ used := by
  have bound := digitsBound read
  rw [Nat.zero_add, Nat.one_mul] at bound
  exact lengthIff.mpr ⟨(digitsUsed read).1, bound⟩

end VarUInt

namespace VarInt

theorem lengthIff {n k : Nat} : length n ≤ k ↔ 0 < k ∧ 2 * n < 128 ^ k := by
  unfold length
  cases k with
  | zero => omega
  | succ k =>
    have bits := Bytes.bitLengthIff (n := n) (k := 7 * k + 6)
    have power : 128 ^ (k + 1) = 2 * 2 ^ (7 * k + 6) := by
      rw [← Nat.pow_add_one', show 7 * k + 6 + 1 = 7 * (k + 1) by omega, Nat.pow_mul]
    omega

theorem openDigitsIff {negative : Bool} {n k : Nat} :
    (openDigits negative n).length ≤ k ↔ 0 < k ∧ 2 * n < 128 ^ k := by
  induction k generalizing n with
  | zero =>
    rw [openDigits]
    split <;> simp
  | succ k ih =>
    have power : 128 ^ (k + 1) = 128 * 128 ^ k := Nat.pow_succ'
    have least : 0 < 128 ^ k := Nat.pow_pos (by decide)
    rw [openDigits]
    split
    · rw [List.length_singleton]
      omega
    · rw [List.length_append, List.length_singleton, Nat.add_le_add_iff_right, ih]
      cases k with
      | zero => omega
      | succ k =>
        have even : 128 ^ (k + 1) = 2 * (64 * 128 ^ k) := by rw [Nat.pow_succ]; omega
        omega

theorem encodeOpen (negative : Bool) (n : Nat) :
    (encode negative n).length = (openDigits negative n).length := by
  by_cases small : n < 64
  · rw [encode, openDigits.eq_def negative n, if_pos small, if_pos small]
    rfl
  · rw [encode, openDigits.eq_def negative n, if_neg small, if_neg small, List.length_append,
      List.length_append]
    rfl

theorem encodeLength (negative : Bool) (n : Nat) : (encode negative n).length = length n := by
  rw [encodeOpen]
  exact eq_of_forall_ge_iff fun _ => openDigitsIff.trans lengthIff.symm

theorem decodeLength {raw : Bytes} {negative : Bool} {n used : Nat}
    (read : decode raw = .ok (negative, n, used)) : length n ≤ used := by
  cases raw with
  | nil => contradiction
  | cons b rest =>
    have digit := Nat.mod_lt b.toNat (show 64 > 0 by decide)
    simp only [decode] at read
    split at read
    · cases read
      exact lengthIff.mpr ⟨Nat.one_pos, by omega⟩
    · cases later : VarUInt.digits (b.toNat % 64) rest with
      | error e => simp [later, bind, Except.bind] at read
      | ok found =>
        obtain ⟨m, k⟩ := found
        simp only [later, bind, Except.bind, pure, Except.pure, Except.ok.injEq, Prod.mk.injEq] at read
        obtain ⟨-, rfl, rfl⟩ := read
        have room : m < 64 * 128 ^ k :=
          Nat.lt_of_lt_of_le (VarUInt.digitsBound later) (Nat.mul_le_mul_right _ digit)
        refine lengthIff.mpr ⟨Nat.succ_pos k, ?_⟩
        rw [Nat.pow_succ]
        omega

end VarInt

namespace Cursor

variable {c c' : Cursor}

theorem numberDecodes {decode : Bytes → Except ReadError (α × Nat)} {a : α}
    (read : number decode c = .ok a c') : ∃ used, decode c.rest = .ok (a, used) ∧ c' = c.advance used := by
  unfold number at read
  split at read <;> cases read
  exact ⟨_, ‹_›, rfl⟩

theorem varIntDecodes {negative : Bool} {n : Nat} (read : varInt c = .ok (negative, n) c') :
    ∃ used, VarInt.decode c.rest = .ok (negative, n, used) ∧ c' = c.advance used := by
  obtain ⟨used, decoded, behind⟩ := numberDecodes read
  cases found : VarInt.decode c.rest with
  | error e => simp [found, bind, Except.bind] at decoded
  | ok digits =>
    obtain ⟨negative', n', used'⟩ := digits
    simp only [found, bind, Except.bind, pure, Except.pure, Except.ok.injEq, Prod.mk.injEq] at decoded
    obtain ⟨⟨rfl, rfl⟩, rfl⟩ := decoded
    exact ⟨used', rfl, behind⟩

end Cursor

end Ion
