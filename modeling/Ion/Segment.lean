import Ion.Error

/-!
Segmented writing. Bytes go into equal blocks of a pool; what was written for one list is
recorded as segments of those blocks, so a list can be placed behind another without moving
bytes. Resetting the pool keeps the blocks and what stands in them. A sink that the bytes go to may run
full; it keeps the bytes it took, also those of a write that did not fit as a whole.
-/
namespace Ion

structure Sink where
  limit : Option Nat
  failsFlush : Bool
  received : Bytes
  deriving DecidableEq, Repr

namespace Sink

def empty (limit : Option Nat) (failsFlush : Bool) : Sink := ⟨limit, failsFlush, []⟩

def room (s : Sink) (wanted : Nat) : Nat :=
  match s.limit with
  | none => wanted
  | some limit => min wanted (limit - s.received.length)

def write (data : Bytes) : EStateM SinkError Sink Unit := fun s =>
  let fits := s.room data.length
  let s := { s with received := s.received ++ data.take fits }
  if fits = data.length then .ok () s else .error .full s

def flush : EStateM SinkError Sink Unit := fun s =>
  if s.failsFlush then .error .flush s else .ok () s

theorem writeUnlimited (data : Bytes) (s : Sink) (unlimited : s.limit = none) :
    write data s = .ok () { s with received := s.received ++ data } := by
  simp [write, room, unlimited]

end Sink

structure Segment where
  block : Nat
  start : Nat
  length : Nat
  deriving DecidableEq, Repr

abbrev SegmentList := List Segment

namespace SegmentList

def total : SegmentList → Nat
  | [] => 0
  | s :: rest => s.length + total rest

end SegmentList

structure Pool where
  blockSize : Nat
  blocks : Array (Array UInt8)
  current : Nat
  filled : Nat
  -- bytes of the current block already recorded or left to others
  marked : Nat
  deriving DecidableEq, Repr

namespace Pool

def defaultBlockSize : Nat := 1024

def empty (blockSize : Nat) : Pool := ⟨max blockSize 16, #[], 0, 0, 0⟩

def reset (p : Pool) : Pool := { p with current := 0, filled := 0, marked := 0 }

def mark (p : Pool) : Pool := { p with marked := p.filled }

def segmentBytes (p : Pool) (s : Segment) : Bytes :=
  (((p.blocks[s.block]?.getD #[]).toList).drop s.start).take s.length

def listBytes (p : Pool) (list : SegmentList) : Bytes := list.flatMap p.segmentBytes

def writeTo (p : Pool) : SegmentList → EStateM SinkError Sink Nat
  | [] => return 0
  | s :: list => do
    let data := p.segmentBytes s
    Sink.write data
    let n ← writeTo p list
    return data.length + n

end Pool

structure Streak where
  pool : Pool
  target : SegmentList
  deriving DecidableEq, Repr

namespace Streak

def start (pool : Pool) (target : SegmentList) : Streak := ⟨pool.mark, target⟩

def record (s : Streak) : Streak :=
  let p := s.pool
  let target :=
    if p.marked < p.filled then s.target ++ [⟨p.current, p.marked, p.filled - p.marked⟩]
    else s.target
  ⟨p.mark, target⟩

def leaveBlock (s : Streak) : Streak :=
  let s := s.record
  { s with pool := { s.pool with current := s.pool.current + 1, filled := 0, marked := 0 } }

def provideBlock (s : Streak) : Streak :=
  let p := s.pool
  if p.current = p.blocks.size then
    { s with pool := { p with blocks := p.blocks.push (Array.replicate p.blockSize 0) } }
  else s

def makeRoom (s : Streak) : Streak :=
  if s.pool.current < s.pool.blocks.size then
    if s.pool.filled < s.pool.blockSize then s else s.leaveBlock.provideBlock
  else s.provideBlock

def writeByte (s : Streak) (b : UInt8) : Streak :=
  let s := s.makeRoom
  let p := s.pool
  { s with
    pool := { p with
      blocks := p.blocks.modify p.current fun block => block.setIfInBounds p.filled b
      filled := p.filled + 1 } }

def write (s : Streak) (data : Bytes) : Streak := data.foldl writeByte s

def finish (s : Streak) : SegmentList × Pool :=
  let s := s.record
  (s.target, s.pool)

end Streak

inductive SegmentBuffer
  | idle (pool : Pool)
  | writing (streak : Streak)
  deriving DecidableEq, Repr

namespace SegmentBuffer

def empty (blockSize : Nat) : SegmentBuffer := idle (.empty blockSize)

def pool : SegmentBuffer → Pool
  | idle pool => pool
  | writing streak => streak.pool

def inStreak : SegmentBuffer → Bool
  | idle _ => false
  | writing _ => true

def blockSize (b : SegmentBuffer) : Nat := b.pool.blockSize

def allocatedBlocks (b : SegmentBuffer) : Nat := b.pool.blocks.size

def startStreak (b : SegmentBuffer) (target : SegmentList) : SegmentBuffer :=
  writing (.start b.pool target)

def wrapup : SegmentBuffer → Option SegmentList × SegmentBuffer
  | idle pool => (none, idle pool)
  | writing streak =>
    let (list, pool) := streak.finish
    (some list, idle pool)

def reset (b : SegmentBuffer) : SegmentBuffer := idle b.pool.reset

def write? (b : SegmentBuffer) (data : Bytes) : Option SegmentBuffer :=
  match b with
  | idle _ => none
  | writing streak => some (writing (streak.write data))

end SegmentBuffer

end Ion
