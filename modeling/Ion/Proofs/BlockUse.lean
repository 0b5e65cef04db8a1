import Mathlib.Algebra.Order.Floor.Div
import Mathlib.GroupTheory.GroupAction.Ring
import Ion.Proofs.SharedBuffer
import Ion.Proofs.Twins

/-! The blocks that a pool takes. Between two resets the place of writing is behind all bytes written so
far, whatever lists they are for, and a block is taken when a byte comes for which there is none. -/
namespace Ion

/-- What is written in the periods between resets. Nothing is written outside a streak. -/
structure Periods where
  inStreak : Bool
  -- bytes since the last reset
  running : Nat
  -- bytes in each period before
  ended : List Nat
  deriving DecidableEq, Repr

namespace Periods

def pass (p : Periods) : ListRequest → Periods
  | .start _ => { p with inStreak := true }
  | .write data => if p.inStreak then { p with running := p.running + data.length } else p
  | .wrapup _ => { p with inStreak := false }
  | .splice _ _ => p
  | .reset => ⟨false, 0, p.running :: p.ended⟩

def of (requests : List ListRequest) : Periods := requests.foldl pass ⟨false, 0, []⟩

def noted (p : Periods) (request : ListRequest) : Unit × Periods := ((), p.pass request)

def totals (p : Periods) : List Nat := p.running :: p.ended

end Periods

def mostBlocks (room : Nat) (counts : List Nat) : Nat := (counts.map (· ⌈/⌉ room)).max?.getD 0

theorem mostBlocksCons (room count : Nat) (counts : List Nat) :
    mostBlocks room (count :: counts) = max (count ⌈/⌉ room) (mostBlocks room counts) := by
  unfold mostBlocks
  rw [List.map_cons, List.max?_cons, Option.getD_some]
  cases (counts.map (· ⌈/⌉ room)).max? with
  | none => exact (Nat.max_zero _).symm
  | some most => rfl

theorem mostBlocksFound (room count : Nat) (counts : List Nat) :
    ((count :: counts).map (· ⌈/⌉ room)).max? = some (mostBlocks room (count :: counts)) := by
  rw [mostBlocks, List.map_cons, List.max?_cons]
  rfl

theorem ceilBegun {room filled : Nat} (full : Nat) (begun : 0 < filled) (fits : filled ≤ room) :
    (full * room + filled) ⌈/⌉ room = full + 1 := by
  have positive : 0 < room := Nat.lt_of_lt_of_le begun fits
  rw [Nat.ceilDiv_eq_add_pred_div, show full * room + filled + room - 1 = filled - 1 + (full + 1) * room by
    rw [Nat.add_mul]
    omega]
  rw [Nat.add_mul_div_right _ _ positive, Nat.div_eq_of_lt (by omega), Nat.zero_add]

structure Pool.Counts (p : Pool) (room most written : Nat) : Prop where
  blockSize : p.blockSize = room
  place : p.current * room + p.filled = written
  filled : p.filled ≤ room
  -- a block is entered with a byte for it
  entered : p.filled = 0 → p.current = 0
  blocks : p.blocks.size = max most (written ⌈/⌉ room)

namespace Pool.Counts

variable {p : Pool} {room most written : Nat}

theorem empty (blockSize : Nat) : (Pool.empty blockSize).Counts (max blockSize 16) 0 0 :=
  ⟨rfl, by simp [Pool.empty], Nat.zero_le _, fun _ => rfl, by simp [Pool.empty]⟩

theorem nothing (counts : p.Counts room most written) (zero : p.filled = 0) :
    p.current = 0 ∧ p.blocks.size = most := by
  have first := counts.entered zero
  have place := counts.place
  have blocks := counts.blocks
  rw [first, zero, Nat.zero_mul, Nat.add_zero] at place
  rw [← place, zero_ceilDiv, Nat.max_zero] at blocks
  exact ⟨first, blocks⟩

theorem begun (counts : p.Counts room most written) (part : 0 < p.filled) :
    p.blocks.size = max most (p.current + 1) := by
  rw [counts.blocks, ← counts.place, ceilBegun p.current part counts.filled]

theorem mark (counts : p.Counts room most written) : p.mark.Counts room most written :=
  ⟨counts.blockSize, counts.place, counts.filled, counts.entered, counts.blocks⟩

theorem reset (counts : p.Counts room most written) :
    p.reset.Counts room (max (written ⌈/⌉ room) most) 0 := by
  refine ⟨counts.blockSize, ?_, Nat.zero_le _, fun _ => rfl, ?_⟩
  · simp [Pool.reset]
  · rw [zero_ceilDiv, Nat.max_zero, Nat.max_comm]
    exact counts.blocks

end Pool.Counts

namespace Streak

variable {s : Streak} {room most written : Nat}

theorem provideBlockCounts (blocks : s.pool.blocks.size = max most s.pool.current) :
    s.provideBlock.pool.blocks.size = max most (s.pool.current + 1) := by
  unfold provideBlock
  dsimp only
  split
  · rw [Array.size_push]
    omega
  · omega

theorem makeRoomCounts (positive : 0 < room) (counts : s.pool.Counts room most written) :
    s.makeRoom.pool.blockSize = room ∧
      s.makeRoom.pool.current * room + s.makeRoom.pool.filled = written ∧
      s.makeRoom.pool.filled < room ∧ s.makeRoom.pool.blocks.size = max most (s.makeRoom.pool.current + 1) := by
  have blockSize := counts.blockSize
  have place := counts.place
  have filled := counts.filled
  by_cases inside : s.pool.current < s.pool.blocks.size
  · by_cases free : s.pool.filled < s.pool.blockSize
    · rw [makeRoom, if_pos inside, if_pos free]
      refine ⟨blockSize, place, blockSize ▸ free, ?_⟩
      rcases Nat.eq_zero_or_pos s.pool.filled with zero | part
      · obtain ⟨first, blocks⟩ := counts.nothing zero
        omega
      · exact counts.begun part
    · have full : s.pool.filled = room := by omega
      have next : (s.pool.current + 1) * room = written := by
        rw [Nat.add_mul, Nat.one_mul, ← place, full]
      obtain ⟨-, size, current, empty, -⟩ := s.leaveBlock.provideBlockRest
      rw [makeRoom, if_pos inside, if_neg free, size, current, empty]
      exact ⟨blockSize, next, positive, provideBlockCounts (s := s.leaveBlock) (counts.begun (by omega))⟩
  · -- before the first byte there may be no block
    have zero : s.pool.filled = 0 := by
      by_contra part
      have blocks := counts.begun (Nat.pos_of_ne_zero part)
      omega
    obtain ⟨first, blocks⟩ := counts.nothing zero
    obtain ⟨-, size, current, empty, -⟩ := s.provideBlockRest
    rw [makeRoom, if_neg inside, size, current, empty]
    exact ⟨blockSize, place, by omega, provideBlockCounts (by omega)⟩

theorem writeByteCounts (positive : 0 < room) (counts : s.pool.Counts room most written) (b : UInt8) :
    (s.writeByte b).pool.Counts room most (written + 1) := by
  obtain ⟨blockSize, place, free, blocks⟩ := makeRoomCounts positive counts
  have next : s.makeRoom.pool.current * room + (s.makeRoom.pool.filled + 1) = written + 1 := by
    rw [← Nat.add_assoc, place]
  refine ⟨blockSize, next, free, fun zero => absurd zero (Nat.succ_ne_zero _), ?_⟩
  rw [← next, ceilBegun s.makeRoom.pool.current (Nat.succ_pos _) free, ← blocks]
  simp [writeByte]

theorem writeCounts (positive : 0 < room) (counts : s.pool.Counts room most written) (data : Bytes) :
    (s.write data).pool.Counts room most (written + data.length) := by
  induction data generalizing s written with
  | nil => exact counts
  | cons b rest ih =>
    have later := ih (writeByteCounts positive counts b)
    rw [List.length_cons, Nat.add_comm rest.length, ← Nat.add_assoc]
    exact later

end Streak

namespace SharedBuffer

structure Accounts (room : Nat) (d : SharedBuffer) (p : Periods) : Prop where
  inStreak : d.buffer.inStreak = p.inStreak
  counts : d.buffer.pool.Counts room (mostBlocks room p.ended) p.running

theorem Accounts.performs {room : Nat} {d : SharedBuffer} {p : Periods} (positive : 0 < room)
    (accounts : Accounts room d p) (request : ListRequest) :
    Accounts room (d.perform request).2 (p.pass request) := by
  obtain ⟨inStreak, counts⟩ := accounts
  cases request with
  | start k => exact ⟨rfl, counts.mark⟩
  | splice a b => exact ⟨inStreak, counts⟩
  | reset =>
    refine ⟨rfl, ?_⟩
    show d.buffer.pool.reset.Counts room (mostBlocks room (p.running :: p.ended)) 0
    rw [mostBlocksCons]
    exact counts.reset
  | write data =>
    obtain ⟨buffer, lists⟩ := d
    cases buffer with
    | idle pool =>
      rw [Periods.pass, if_neg (by rw [← inStreak]; exact Bool.false_ne_true)]
      exact ⟨inStreak, counts⟩
    | writing streak =>
      rw [Periods.pass, if_pos (show p.inStreak = true from inStreak.symm)]
      exact ⟨inStreak, Streak.writeCounts positive counts data⟩
  | wrapup k =>
    obtain ⟨buffer, lists⟩ := d
    cases buffer with
    | idle pool => exact ⟨rfl, counts⟩
    | writing streak => exact ⟨rfl, counts.mark⟩

end SharedBuffer

/-- Whatever is called on a new buffer: the blocks taken are those that the period with the most bytes
needs. The place of writing is behind all bytes of the running period. Writing no bytes takes nothing, and a
reset neither frees nor loses a block. -/
theorem blocksAccounted (blockSize size : Nat) (requests : List ListRequest) :
    let d := Dialogue.after SharedBuffer.perform (.empty blockSize size) requests
    let p := Periods.of requests
    let room := max blockSize 16
    d.buffer.blockSize = room ∧
      (p.totals.map (· ⌈/⌉ room)).max? = some d.buffer.allocatedBlocks ∧
      d.buffer.pool.current * room + d.buffer.pool.filled = p.running ∧ d.buffer.pool.filled ≤ room ∧
      (d.perform (.write [])).2 = d ∧
      (d.perform .reset).2.buffer.pool.blocks = d.buffer.pool.blocks := by
  intro d p room
  have positive : 0 < room := by omega
  have first : SharedBuffer.Accounts room (.empty blockSize size) ⟨false, 0, []⟩ := ⟨rfl, .empty blockSize⟩
  have along : Dialogue.Along SharedBuffer.perform (fun _ _ => True) (.empty blockSize size) requests :=
    Dialogue.alongAll (fun _ _ => trivial) _ requests
  have accounts : SharedBuffer.Accounts room d (Dialogue.after Periods.noted ⟨false, 0, []⟩ requests) :=
    Dialogue.stayRelated (SharedBuffer.Accounts room) first along fun accounts _ => accounts.performs positive _
  obtain ⟨-, counts⟩ := accounts
  refine ⟨counts.blockSize, ?_, counts.place, counts.filled, ?_, rfl⟩
  · rw [Periods.totals, mostBlocksFound, mostBlocksCons, Nat.max_comm]
    exact congrArg some counts.blocks.symm
  · obtain ⟨buffer, lists⟩ := d
    cases buffer <;> rfl

-- A block is exactly full where a streak ends, and is taken again after the reset.
example :
    let requests : List ListRequest := [.start 0, .write (List.replicate 10 7), .wrapup 0, .start 1,
      .write (List.replicate 6 8), .wrapup 1, .start 0, .write [], .wrapup 0, .reset, .start 0, .write [9]]
    (Periods.of requests).totals = [1, 16] ∧
      (Dialogue.after SharedBuffer.perform (.empty 16 2) requests).buffer.allocatedBlocks = 1 := by
  decide +kernel

end Ion
