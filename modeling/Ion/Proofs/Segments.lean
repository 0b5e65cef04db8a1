import Ion.Proofs.Congruence

/-! Recorded segments lie apart. Everything recorded ends before the mark of its block, and what is
recorded next begins there. -/
namespace Ion

def Segment.Apart (g h : Segment) : Prop :=
  g.block ≠ h.block ∨ g.start + g.length ≤ h.start ∨ h.start + h.length ≤ g.start

theorem Segment.Apart.symm {g h : Segment} (apart : Apart g h) : Apart h g := by
  unfold Apart at *
  omega

namespace Pool

def Behind (p : Pool) (g : Segment) : Prop :=
  g.block < p.current ∨ g.block = p.current ∧ g.start + g.length ≤ p.marked

structure Laid (p : Pool) (list : SegmentList) : Prop where
  marked : p.marked ≤ p.filled
  apart : list.Pairwise Segment.Apart
  behind : ∀ g ∈ list, p.Behind g

variable {p : Pool} {list : SegmentList}

theorem Laid.rearranged (laid : p.Laid list) {other : SegmentList} (perm : list.Perm other) :
    p.Laid other :=
  ⟨laid.marked, laid.apart.perm perm fun apart => apart.symm, fun g mem => laid.behind g (perm.mem_iff.mpr mem)⟩

theorem Laid.mark (laid : p.Laid list) : p.mark.Laid list := by
  refine ⟨Nat.le_refl _, laid.apart, fun g mem => ?_⟩
  have behind := laid.behind g mem
  have marked := laid.marked
  unfold Behind at *
  simp only [Pool.mark]
  omega

theorem Laid.recorded (laid : p.Laid list) :
    p.mark.Laid (list ++ [⟨p.current, p.marked, p.filled - p.marked⟩]) := by
  have marked := laid.marked
  refine ⟨Nat.le_refl _, ?_, ?_⟩
  · refine List.pairwise_append.mpr ⟨laid.apart, List.pairwise_singleton _ _, fun g mem h last => ?_⟩
    rw [List.mem_singleton.mp last]
    have behind := laid.behind g mem
    unfold Behind at behind
    unfold Segment.Apart
    dsimp only
    omega
  · intro g mem
    rcases List.mem_append.mp mem with old | new
    · exact laid.mark.behind g old
    · rw [List.mem_singleton.mp new]
      refine .inr ⟨rfl, ?_⟩
      simp only [Pool.mark]
      omega

end Pool

namespace Streak

variable {s : Streak} {others : SegmentList}

def Laid (s : Streak) (others : SegmentList) : Prop := s.pool.Laid (others ++ s.target)

theorem startLaid {p : Pool} {list : SegmentList} (laid : p.Laid (others ++ list)) :
    (start p list).Laid others := laid.mark

theorem Laid.record (laid : s.Laid others) : s.record.Laid others := by
  unfold Laid Streak.record
  dsimp only
  split
  · rw [← List.append_assoc]
    exact Pool.Laid.recorded laid
  · exact Pool.Laid.mark laid

theorem Laid.finish (laid : s.Laid others) : s.finish.2.Laid (others ++ s.finish.1) := laid.record

theorem Laid.leaveBlock (laid : s.Laid others) : s.leaveBlock.Laid others := by
  refine ⟨Nat.le_refl _, laid.record.apart, fun g mem => ?_⟩
  have behind := laid.record.behind g mem
  unfold Pool.Behind at *
  simp only [Streak.leaveBlock]
  omega

theorem Laid.provideBlock (laid : s.Laid others) : s.provideBlock.Laid others := by
  unfold Streak.provideBlock
  dsimp only
  split
  · exact ⟨laid.marked, laid.apart, laid.behind⟩
  · exact laid

theorem Laid.makeRoom (laid : s.Laid others) : s.makeRoom.Laid others := by
  unfold Streak.makeRoom
  split
  · split
    · exact laid
    · exact laid.leaveBlock.provideBlock
  · exact laid.provideBlock

theorem Laid.put (laid : s.Laid others) (b : UInt8) : (s.put b).Laid others :=
  ⟨Nat.le_succ_of_le laid.marked, laid.apart, laid.behind⟩

theorem Laid.write (laid : s.Laid others) (data : Bytes) : (s.write data).Laid others := by
  induction data generalizing s with
  | nil => exact laid
  | cons b rest ih => exact ih (laid.makeRoom.put b)

end Streak

namespace SidWriter

/-- No two segments of the writer's lists share a byte, and frames start from empty lists. -/
structure Laid (w : SidWriter) : Prop where
  segments : w.out.Laid (w.below.flatMap ParkedFrame.segments)
  spare : ∀ list ∈ w.spare, list = []

variable {w : SidWriter}

theorem Laid.openFrame (laid : w.Laid) (kind : FrameKind) : (w.openFrame kind).Laid := by
  have clean : w.spare.head?.getD [] = [] := by
    cases inSpare : w.spare with
    | nil => rfl
    | cons list more => exact laid.spare list (by simp [inSpare])
  refine ⟨?_, fun list mem => laid.spare list (List.mem_of_mem_tail mem)⟩
  simp only [SidWriter.openFrame, clean, List.flatMap_cons]
  refine Streak.startLaid (laid.segments.finish.rearranged ?_)
  rw [List.append_nil]
  exact List.perm_append_comm

theorem Laid.closeFrame (laid : w.Laid) : w.closeFrame.Laid := by
  unfold SidWriter.closeFrame
  split
  · rename_i parent outer code below coded
    have body := laid.segments.finish
    rw [below, List.flatMap_cons] at body
    have before : (Streak.start w.out.finish.2 []).Laid
        (parent.segments ++ outer.flatMap ParkedFrame.segments ++ w.out.finish.1) := by
      refine Streak.startLaid ?_
      rw [List.append_nil]
      exact body
    have header := before.write (Wire.header code w.top.length)
    refine ⟨Streak.startLaid (header.finish.rearranged ?_), ?_⟩
    · have outward := @List.perm_append_comm _ parent.segments (outer.flatMap ParkedFrame.segments)
      have forward := @List.perm_append_comm _ w.out.finish.1
        ((Streak.start w.out.finish.2 []).write (Wire.header code w.top.length)).finish.1
      simpa only [List.append_assoc] using outward.append forward
    · intro list mem
      rcases List.mem_cons.mp mem with rfl | old
      · rfl
      · exact laid.spare list old
  · exact laid

theorem laidStable : Stable Laid where
  pending laid _ _ _ := ⟨laid.segments, laid.spare⟩
  append laid data := ⟨laid.segments.write data, laid.spare⟩
  openFrame := Laid.openFrame
  closeFrame := Laid.closeFrame
  restart laid closed := by
    refine ⟨?_, ?_⟩
    · exact Streak.startLaid ⟨Nat.le_refl _, .nil, nofun⟩
    · rw [SidWriter.restart, abandoned, if_pos closed]
      exact laid.spare
  resumed laid := ⟨Streak.startLaid laid.segments.finish, laid.spare⟩

theorem emptyLaid (blockSize : Nat) : (empty blockSize).Laid :=
  ⟨Streak.startLaid ⟨Nat.le_refl _, .nil, nofun⟩, nofun⟩

end SidWriter

end Ion
