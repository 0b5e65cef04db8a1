import Ion.Proofs.Twins
import Mathlib.Data.List.Forall2

/-! One body in other segments. A flush that fails ends the segment being written and begins another
behind it; from then on the writer records other segments than it would have, in the same blocks and
with the same bytes, and no call tells the difference. -/
namespace Ion

def SegmentList.Same (a b : SegmentList) : Prop := ∀ p : Pool, p.listBytes a = p.listBytes b

theorem SegmentList.Same.refl (a : SegmentList) : Same a a := fun _ => rfl

theorem SegmentList.Same.append {a b c d : SegmentList} (one : Same a b) (two : Same c d) :
    Same (a ++ c) (b ++ d) := by
  intro p
  rw [Pool.listBytesAppend, Pool.listBytesAppend, one p, two p]

namespace Streak

/-- The streaks write to the same place of one pool and say the same, in other segments. -/
structure Recut (s t : Streak) : Prop where
  pool : s.pool.mark = t.pool.mark
  list : SegmentList.Same s.finish.1 t.finish.1
  marked : s.pool.marked ≤ s.pool.filled
  marked' : t.pool.marked ≤ t.pool.filled

theorem finishSays (s : Streak) (p : Pool) :
    p.listBytes s.finish.1 = p.listBytes s.target ++
      p.segmentBytes ⟨s.pool.current, s.pool.marked, s.pool.filled - s.pool.marked⟩ := by
  show p.listBytes s.record.target = _
  unfold record
  dsimp only
  split
  · rw [Pool.listBytesAppend]
    simp [Pool.listBytes]
  · have nothing : s.pool.filled - s.pool.marked = 0 := by omega
    simp [nothing, Pool.segmentBytes]

theorem startFinish (p : Pool) (list : SegmentList) :
    (start p list).finish.1 = list ∧ (start p list).finish.2 = p.mark := by
  have unmarked : ¬p.mark.marked < p.mark.filled := Nat.lt_irrefl p.filled
  exact ⟨if_neg unmarked, rfl⟩

theorem putSays (s : Streak) (b : UInt8) (marked : s.pool.marked ≤ s.pool.filled) (p : Pool) :
    p.listBytes (s.put b).finish.1 =
      p.listBytes s.finish.1 ++ p.segmentBytes ⟨s.pool.current, s.pool.filled, 1⟩ := by
  have size : s.pool.filled + 1 - s.pool.marked = s.pool.filled - s.pool.marked + 1 := by omega
  have place : s.pool.marked + (s.pool.filled - s.pool.marked) = s.pool.filled := by omega
  rw [finishSays, finishSays, List.append_assoc]
  simp only [put, Pool.segmentBytes, size, List.take_add, List.drop_drop, place]

theorem provideBlockFinish (s : Streak) : s.provideBlock.finish.1 = s.finish.1 := by
  obtain ⟨target, -, current, filled, marked⟩ := s.provideBlockRest
  show s.provideBlock.record.target = s.record.target
  simp only [record, target, current, filled, marked]

theorem leaveBlockFinish (s : Streak) : s.leaveBlock.finish.1 = s.finish.1 := by
  show s.leaveBlock.record.target = s.record.target
  simp [record, leaveBlock]

variable {s t : Streak}

theorem Recut.place (recut : Recut s t) :
    s.pool.blockSize = t.pool.blockSize ∧ s.pool.blocks = t.pool.blocks ∧
      s.pool.current = t.pool.current ∧ s.pool.filled = t.pool.filled := by
  have pool := recut.pool
  simp only [Pool.mark, Pool.mk.injEq] at pool
  exact ⟨pool.1, pool.2.1, pool.2.2.1, pool.2.2.2.1⟩

theorem startRecut {a b : SegmentList} (p : Pool) (same : SegmentList.Same a b) :
    Recut (start p a) (start p b) := by
  refine ⟨rfl, ?_, Nat.le_refl _, Nat.le_refl _⟩
  rw [(startFinish p a).1, (startFinish p b).1]
  exact same

theorem Recut.leaveBlock (recut : Recut s t) : Recut s.leaveBlock t.leaveBlock := by
  obtain ⟨size, blocks, current, filled⟩ := recut.place
  refine ⟨?_, ?_, Nat.le_refl _, Nat.le_refl _⟩
  · simp only [Streak.leaveBlock, record, Pool.mark, size, blocks, current]
  · rw [leaveBlockFinish, leaveBlockFinish]
    exact recut.list

theorem Recut.provideBlock (recut : Recut s t) : Recut s.provideBlock t.provideBlock := by
  obtain ⟨size, blocks, current, filled⟩ := recut.place
  obtain ⟨-, -, -, filledHere, markedHere⟩ := s.provideBlockRest
  obtain ⟨-, -, -, filledThere, markedThere⟩ := t.provideBlockRest
  refine ⟨?_, ?_, ?_, ?_⟩
  · simp only [Streak.provideBlock, size, blocks, current]
    split <;> simp only [Pool.mark, size, blocks, current, filled]
  · rw [provideBlockFinish, provideBlockFinish]
    exact recut.list
  · rw [filledHere, markedHere]
    exact recut.marked
  · rw [filledThere, markedThere]
    exact recut.marked'

theorem Recut.makeRoom (recut : Recut s t) : Recut s.makeRoom t.makeRoom := by
  obtain ⟨size, blocks, current, filled⟩ := recut.place
  unfold Streak.makeRoom
  rw [size, blocks, current, filled]
  split
  · split
    · exact recut
    · exact recut.leaveBlock.provideBlock
  · exact recut.provideBlock

theorem Recut.put (recut : Recut s t) (b : UInt8) : Recut (s.put b) (t.put b) := by
  obtain ⟨size, blocks, current, filled⟩ := recut.place
  refine ⟨?_, ?_, Nat.le_succ_of_le recut.marked, Nat.le_succ_of_le recut.marked'⟩
  · simp only [Streak.put, Pool.mark, size, blocks, current, filled]
  · intro p
    rw [putSays s b recut.marked, putSays t b recut.marked', recut.list p, current, filled]

theorem Recut.write (recut : Recut s t) (data : Bytes) : Recut (s.write data) (t.write data) := by
  induction data generalizing s t with
  | nil => exact recut
  | cons b rest ih => exact ih (recut.makeRoom.put b)

theorem Recut.finish (recut : Recut s t) : s.finish.2 = t.finish.2 := recut.pool

theorem Recut.bytes (recut : Recut s t) : s.bytes = t.bytes := by
  rw [← s.finishBytes, ← t.finishBytes, recut.finish]
  exact recut.list _

end Streak

namespace SidWriter

structure ParkedRecut (p q : ParkedFrame) : Prop where
  frame : p.frame = q.frame
  segments : SegmentList.Same p.segments q.segments

structure Recut (w v : SidWriter) : Prop where
  out : Streak.Recut w.out v.out
  top : w.top = v.top
  below : List.Forall₂ ParkedRecut w.below v.below
  spare : List.Forall₂ SegmentList.Same w.spare v.spare
  field : w.field = v.field
  annotations : w.annotations = v.annotations
  poisoned : w.poisoned = v.poisoned

variable {w v : SidWriter}

theorem Recut.frames (recut : Recut w v) : w.frames = v.frames := by
  have below : w.below.map ParkedFrame.frame = v.below.map ParkedFrame.frame := by
    generalize w.below = parked, v.below = parked', recut.below = both
    induction both with
    | nil => rfl
    | cons first rest ih => rw [List.map_cons, List.map_cons, first.frame, ih]
  rw [SidWriter.frames, recut.top, below, SidWriter.frames]

theorem Recut.append (recut : Recut w v) (data : Bytes) : Recut (w.append data) (v.append data) := by
  refine ⟨recut.out.write data, ?_, recut.below, recut.spare, recut.field, recut.annotations,
    recut.poisoned⟩
  simp only [SidWriter.append, recut.top]

theorem Recut.openFrame (recut : Recut w v) (kind : FrameKind) :
    Recut (w.openFrame kind) (v.openFrame kind) := by
  obtain ⟨first, others⟩ : SegmentList.Same (w.spare.head?.getD []) (v.spare.head?.getD []) ∧
      List.Forall₂ SegmentList.Same w.spare.tail v.spare.tail := by
    generalize w.spare = spare, v.spare = spare', recut.spare = both
    cases both with
    | nil => exact ⟨.refl [], .nil⟩
    | cons same rest => exact ⟨same, rest⟩
  refine ⟨?_, rfl, .cons ⟨recut.top, recut.out.list⟩ recut.below, others, recut.field,
    recut.annotations, recut.poisoned⟩
  simp only [SidWriter.openFrame, recut.out.finish]
  exact Streak.startRecut _ first

theorem Recut.closeFrame (recut : Recut w v) : Recut w.closeFrame v.closeFrame := by
  unfold SidWriter.closeFrame
  rw [← recut.top]
  have below := recut.below
  cases frames : w.below with
  | nil =>
    rw [frames] at below
    rw [List.forall₂_nil_left_iff.mp below]
    exact recut
  | cons parent outer =>
    rw [frames] at below
    obtain ⟨parent', outer', same, rest, frames'⟩ := List.forall₂_cons_left_iff.mp below
    rw [frames']
    cases w.top.kind.code? with
    | none => exact recut
    | some code =>
      dsimp only
      rw [← recut.out.finish]
      refine ⟨Streak.startRecut _ ?_, ?_, rest, .cons (.refl []) recut.spare, recut.field,
        recut.annotations, recut.poisoned⟩
      · exact (same.segments.append (.refl _)).append recut.out.list
      · rw [same.frame]

theorem Recut.restart (recut : Recut w v) : Recut w.restart v.restart := by
  have pool : w.out.pool.reset = v.out.pool.reset := by
    obtain ⟨size, blocks, -, -⟩ := recut.out.place
    simp only [Pool.reset, size, blocks]
  have abandoned : List.Forall₂ SegmentList.Same w.abandoned v.abandoned := by
    have closed : w.below = [] ↔ v.below = [] := by
      rw [← List.length_eq_zero_iff, recut.below.length_eq, List.length_eq_zero_iff]
    unfold SidWriter.abandoned
    by_cases nothing : v.below = []
    · rw [if_pos nothing, if_pos (closed.mpr nothing)]
      exact recut.spare
    · rw [if_neg nothing, if_neg fun empty => nothing (closed.mp empty)]
      have inner : List.Forall₂ ParkedRecut w.below.dropLast v.below.dropLast := by
        rw [List.dropLast_eq_take, List.dropLast_eq_take, recut.below.length_eq]
        exact List.forall₂_take _ recut.below
      refine List.rel_append ?_ (.cons (.refl []) recut.spare)
      rw [List.forall₂_map_left_iff, List.forall₂_map_right_iff]
      exact (List.forall₂_reverse_iff.mpr inner).imp fun _ _ same => same.segments
  refine ⟨?_, rfl, .nil, abandoned, rfl, rfl, recut.poisoned⟩
  simp only [SidWriter.restart, pool]
  exact Streak.startRecut _ (.refl [])

theorem Recut.resumed (recut : Recut w v) : Recut w.resumed v.resumed := by
  refine ⟨?_, recut.top, recut.below, recut.spare, recut.field, recut.annotations, recut.poisoned⟩
  simp only [SidWriter.resumed, recut.out.finish]
  exact Streak.startRecut _ recut.out.list

theorem Recut.congruence : Congruence Recut where
  frames := Recut.frames
  field := Recut.field
  annotations := Recut.annotations
  poisoned := Recut.poisoned
  bytes recut := recut.out.bytes
  pending recut _ _ _ := ⟨recut.out, recut.top, recut.below, recut.spare, rfl, rfl, rfl⟩
  append := Recut.append
  openFrame := Recut.openFrame
  closeFrame := Recut.closeFrame
  restart recut _ := recut.restart
  resumed := Recut.resumed

theorem resumedRecut (w : SidWriter) (marked : w.out.pool.marked ≤ w.out.pool.filled) :
    Recut w.resumed w := by
  refine ⟨⟨rfl, ?_, Nat.le_refl _, marked⟩, rfl, ?_, ?_, rfl, rfl, rfl⟩
  · rw [SidWriter.resumed, (Streak.startFinish _ _).1]
    exact .refl _
  · exact List.forall₂_same.mpr fun p _ => ⟨rfl, .refl _⟩
  · exact List.forall₂_same.mpr fun list _ => .refl list

end SidWriter

end Ion
