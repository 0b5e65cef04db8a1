import Ion.Error

/-!
Variable-length numbers: seven bits a byte, high digits first, the last byte marked by its high
bit. The signed form spends a bit of its first byte on the sign, so negative zero is a form of
its own. Writing is defined on every number; reading stops at 64 bits.
-/
namespace Ion

namespace VarUInt

def openDigits (n : Nat) : Bytes :=
  if n = 0 then [] else openDigits (n / 128) ++ [UInt8.ofNat (n % 128)]
termination_by n

def encode (n : Nat) : Bytes := openDigits (n / 128) ++ [UInt8.ofNat (128 + n % 128)]

def length (n : Nat) : Nat := max 1 ((Bytes.bitLength n + 6) / 7)

def roomLimit : Nat := 0x200000000000000

def digits (acc : Nat) : Bytes → Except ReadError (Nat × Nat)
  | [] => .error .endOfInput
  | b :: rest =>
    if roomLimit ≤ acc then .error .overflow
    else if 128 ≤ b.toNat then .ok (acc * 128 + b.toNat % 128, 1)
    else do
      let (n, used) ← digits (acc * 128 + b.toNat % 128) rest
      return (n, used + 1)

def decode (raw : Bytes) : Except ReadError (Nat × Nat) := digits 0 raw

theorem digitsUsed {acc n used : Nat} {raw : Bytes} (h : digits acc raw = .ok (n, used)) :
    0 < used ∧ used ≤ raw.length := by
  induction raw generalizing acc n used with
  | nil => simp [digits] at h
  | cons b rest ih =>
    unfold digits at h
    split at h
    · simp at h
    · split at h
      · simp only [Except.ok.injEq, Prod.mk.injEq] at h
        simp [← h.2]
      · cases hr : digits (acc * 128 + b.toNat % 128) rest with
        | error e => simp [hr, bind, Except.bind] at h
        | ok r =>
          obtain ⟨m, k⟩ := r
          simp only [hr, bind, Except.bind, pure, Except.pure, Except.ok.injEq,
            Prod.mk.injEq] at h
          have inner := ih hr
          simp only [List.length_cons]
          omega

end VarUInt

namespace VarInt

def signBit (negative : Bool) : Nat := if negative then 64 else 0

def openDigits (negative : Bool) (n : Nat) : Bytes :=
  if n < 64 then [UInt8.ofNat (signBit negative + n)]
  else openDigits negative (n / 128) ++ [UInt8.ofNat (n % 128)]
termination_by n

def encode (negative : Bool) (magnitude : Nat) : Bytes :=
  if magnitude < 64 then [UInt8.ofNat (128 + signBit negative + magnitude)]
  else openDigits negative (magnitude / 128) ++ [UInt8.ofNat (128 + magnitude % 128)]

def encodeInt (n : Int) : Bytes := encode (n < 0) n.natAbs

def length (magnitude : Nat) : Nat := max 1 ((Bytes.bitLength magnitude + 7) / 7)

def decode : Bytes → Except ReadError (Bool × Nat × Nat)
  | [] => .error .endOfInput
  | b :: rest =>
    let negative := b.toNat / 64 % 2 == 1
    if 128 ≤ b.toNat then .ok (negative, b.toNat % 64, 1)
    else do
      let (n, used) ← VarUInt.digits (b.toNat % 64) rest
      return (negative, n, used + 1)

theorem decodeUsed {raw : Bytes} {negative : Bool} {n used : Nat}
    (h : decode raw = .ok (negative, n, used)) : 0 < used ∧ used ≤ raw.length := by
  cases raw with
  | nil => simp [decode] at h
  | cons b rest =>
    simp only [decode] at h
    split at h
    · simp only [Except.ok.injEq, Prod.mk.injEq] at h
      simp [← h.2.2]
    · cases hr : VarUInt.digits (b.toNat % 64) rest with
      | error e => simp [hr, bind, Except.bind] at h
      | ok r =>
        obtain ⟨m, k⟩ := r
        simp only [hr, bind, Except.bind, pure, Except.pure, Except.ok.injEq,
          Prod.mk.injEq] at h
        have inner := VarUInt.digitsUsed hr
        simp only [List.length_cons]
        omega

end VarInt

end Ion
