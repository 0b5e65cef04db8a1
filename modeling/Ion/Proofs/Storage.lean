import Ion.Segment

/-! Bytes kept in a pool of blocks. A recorded segment lies before the place of writing, so later
writing leaves its bytes alone; a streak therefore only ever adds to what its list spells. -/
namespace Ion

namespace Pool

structure Sound (p : Pool) : Prop where
  room : 0 < p.blockSize
  sized : ∀ {i : Nat} {block : Array UInt8}, p.blocks[i]? = some block → block.size = p.blockSize
  current : p.current ≤ p.blocks.size
  filled : p.filled ≤ p.blockSize
  marked : p.marked ≤ p.filled
  fresh : p.current = p.blocks.size → p.filled = 0

structure Inside (p : Pool) (g : Segment) : Prop where
  nonempty : 0 < g.length
  block : g.block < p.blocks.size
  bound : g.start + g.length ≤ p.blockSize

structure Settled (p : Pool) (g : Segment) : Prop extends p.Inside g where
  behind : g.block < p.current ∨ g.block = p.current ∧ g.start + g.length ≤ p.filled

structure Keeps (p q : Pool) : Prop where
  blockSize : q.blockSize = p.blockSize
  blocks : p.blocks.size ≤ q.blocks.size
  settled : ∀ g, p.Settled g → q.Settled g
  same : ∀ g, p.Settled g → q.segmentBytes g = p.segmentBytes g

theorem Keeps.refl (p : Pool) : Keeps p p :=
  ⟨rfl, Nat.le_refl _, fun _ h => h, fun _ _ => rfl⟩

theorem Keeps.trans {p q r : Pool} (one : Keeps p q) (two : Keeps q r) : Keeps p r where
  blockSize := two.blockSize.trans one.blockSize
  blocks := Nat.le_trans one.blocks two.blocks
  settled g h := two.settled g (one.settled g h)
  same g h := (two.same g (one.settled g h)).trans (one.same g h)

theorem Keeps.listBytes {p q : Pool} (keeps : Keeps p q) {list : SegmentList}
    (settled : ∀ g ∈ list, p.Settled g) : q.listBytes list = p.listBytes list := by
  induction list with
  | nil => rfl
  | cons g rest ih =>
    have head := keeps.same g (settled g List.mem_cons_self)
    have tail := ih fun s mem => settled s (List.mem_cons_of_mem g mem)
    simp only [Pool.listBytes, List.flatMap_cons] at *
    rw [head, tail]

theorem listBytesAppend (p : Pool) (a b : SegmentList) :
    p.listBytes (a ++ b) = p.listBytes a ++ p.listBytes b := by
  simp [listBytes]

theorem segmentLength {p : Pool} (sound : p.Sound) {g : Segment} (inside : p.Inside g) :
    (p.segmentBytes g).length = g.length := by
  have present := Array.getElem?_eq_getElem inside.block
  have size := sound.sized present
  have bound := inside.bound
  simp only [segmentBytes, present, Option.getD_some, List.length_take, List.length_drop,
    Array.length_toList]
  omega

theorem listLength {p : Pool} (sound : p.Sound) {list : SegmentList}
    (inside : ∀ g ∈ list, p.Inside g) : (p.listBytes list).length = list.total := by
  induction list with
  | nil => rfl
  | cons g rest ih =>
    have head := segmentLength sound (inside g List.mem_cons_self)
    have tail := ih fun s mem => inside s (List.mem_cons_of_mem g mem)
    simp only [listBytes, List.flatMap_cons, List.length_append, SegmentList.total] at *
    omega

def pending (p : Pool) : Bytes := p.segmentBytes ⟨p.current, p.marked, p.filled - p.marked⟩

theorem pendingMarked (p : Pool) : p.mark.pending = [] := by
  simp [pending, mark, segmentBytes]

theorem markKeeps (p : Pool) : Keeps p p.mark :=
  ⟨rfl, Nat.le_refl _, fun _ h => ⟨⟨h.nonempty, h.block, h.bound⟩, h.behind⟩, fun _ _ => rfl⟩

theorem markSound {p : Pool} (sound : p.Sound) : p.mark.Sound :=
  ⟨sound.room, sound.sized, sound.current, sound.filled, Nat.le_refl _, sound.fresh⟩

theorem resetSound {p : Pool} (sound : p.Sound) : p.reset.Sound :=
  ⟨sound.room, sound.sized, Nat.zero_le _, Nat.zero_le _, Nat.le_refl _, fun _ => rfl⟩

theorem emptySound (blockSize : Nat) : (empty blockSize).Sound := by
  refine ⟨?_, ?_, Nat.le_refl _, Nat.zero_le _, Nat.le_refl _, fun _ => rfl⟩
  · simp only [empty]
    omega
  · simp [empty]

end Pool

namespace Streak

structure Sound (s : Streak) : Prop where
  pool : s.pool.Sound
  target : ∀ g ∈ s.target, s.pool.Settled g

def bytes (s : Streak) : Bytes := s.pool.listBytes s.target ++ s.pool.pending

structure Grows (s t : Streak) (data : Bytes) : Prop where
  sound : t.Sound
  bytes : t.bytes = s.bytes ++ data
  keeps : s.pool.Keeps t.pool

theorem Grows.trans {s t u : Streak} {a b : Bytes} (one : s.Grows t a) (two : t.Grows u b) :
    s.Grows u (a ++ b) where
  sound := two.sound
  bytes := by rw [two.bytes, one.bytes, List.append_assoc]
  keeps := one.keeps.trans two.keeps

theorem startSound {p : Pool} {list : SegmentList} (sound : p.Sound)
    (settled : ∀ g ∈ list, p.Settled g) : (start p list).Sound :=
  ⟨p.markSound sound, fun g mem => p.markKeeps.settled g (settled g mem)⟩

theorem startBytes (p : Pool) (list : SegmentList) : (start p list).bytes = p.listBytes list := by
  rw [bytes, start, Pool.pendingMarked, List.append_nil]
  rfl

theorem pendingSettled {p : Pool} (sound : p.Sound) (waiting : p.marked < p.filled) :
    p.Settled ⟨p.current, p.marked, p.filled - p.marked⟩ := by
  have filled := sound.filled
  have fresh := sound.fresh
  have current := sound.current
  constructor
  · constructor
    · exact Nat.sub_pos_of_lt waiting
    · show p.current < p.blocks.size
      omega
    · show p.marked + (p.filled - p.marked) ≤ p.blockSize
      omega
  · show p.current < p.current ∨ p.current = p.current ∧ p.marked + (p.filled - p.marked) ≤ p.filled
    omega

theorem recordGrows {s : Streak} (sound : s.Sound) : s.Grows s.record [] := by
  by_cases waiting : s.pool.marked < s.pool.filled
  · have last := pendingSettled sound.pool waiting
    have target : ∀ g ∈ s.target ++ [⟨s.pool.current, s.pool.marked, s.pool.filled - s.pool.marked⟩],
        s.pool.Settled g := by
      intro g mem
      rcases List.mem_append.mp mem with old | new
      · exact sound.target g old
      · rw [List.mem_singleton.mp new]
        exact last
    have same : s.record = start s.pool
        (s.target ++ [⟨s.pool.current, s.pool.marked, s.pool.filled - s.pool.marked⟩]) := by
      simp [record, waiting, start]
    rw [same]
    refine ⟨startSound sound.pool target, ?_, s.pool.markKeeps⟩
    rw [startBytes, Pool.listBytesAppend]
    simp [bytes, Pool.pending, Pool.listBytes]
  · have same : s.record = start s.pool s.target := by simp [record, waiting, start]
    have settled : s.pool.pending = [] := by
      have : s.pool.filled - s.pool.marked = 0 := by omega
      simp [Pool.pending, Pool.segmentBytes, this]
    rw [same]
    refine ⟨startSound sound.pool sound.target, ?_, s.pool.markKeeps⟩
    rw [startBytes]
    simp [bytes, settled]

theorem finishSound {s : Streak} (sound : s.Sound) : s.finish.2.Sound :=
  (recordGrows sound).sound.pool

theorem finishSettled {s : Streak} (sound : s.Sound) : ∀ g ∈ s.finish.1, s.finish.2.Settled g :=
  (recordGrows sound).sound.target

theorem finishKeeps {s : Streak} (sound : s.Sound) : s.pool.Keeps s.finish.2 :=
  (recordGrows sound).keeps

theorem finishBytes (s : Streak) : s.finish.2.listBytes s.finish.1 = s.bytes := by
  show s.pool.listBytes s.record.target = s.bytes
  unfold record bytes Pool.pending
  dsimp only
  split
  · rw [Pool.listBytesAppend]
    simp [Pool.listBytes]
  · have nothing : s.pool.filled - s.pool.marked = 0 := by omega
    simp [nothing, Pool.segmentBytes]

theorem leaveBlockGrows {s : Streak} (sound : s.Sound) (inside : s.pool.current < s.pool.blocks.size) :
    s.Grows s.leaveBlock [] := by
  have recorded := recordGrows sound
  refine recorded.trans (b := []) ?_
  have pool := recorded.sound.pool
  have next : s.record.pool.Keeps s.leaveBlock.pool := by
    refine ⟨rfl, Nat.le_refl _, fun g h => ⟨⟨h.nonempty, h.block, h.bound⟩, Or.inl ?_⟩, fun _ _ => rfl⟩
    show g.block < s.record.pool.current + 1
    have behind := h.behind
    omega
  refine ⟨⟨⟨pool.room, pool.sized, inside, Nat.zero_le _, Nat.le_refl _, fun _ => rfl⟩, ?_⟩, ?_, next⟩
  · intro g mem
    exact next.settled g (recorded.sound.target g mem)
  · have old : s.record.pool.pending = [] := s.pool.pendingMarked
    have new : s.leaveBlock.pool.pending = [] := by
      simp [Pool.pending, Pool.segmentBytes, leaveBlock]
    have list := next.listBytes recorded.sound.target
    simp only [bytes, old, new, List.append_nil]
    exact list

theorem provideBlockGrows {s : Streak} (sound : s.Sound) : s.Grows s.provideBlock [] := by
  unfold provideBlock
  dsimp only
  split
  · rename_i missing
    have pool := sound.pool
    have empty := pool.fresh missing
    have unmarked : s.pool.marked = 0 := by
      have := pool.marked
      omega
    have keeps : s.pool.Keeps
        { s.pool with blocks := s.pool.blocks.push (Array.replicate s.pool.blockSize 0) } := by
      refine ⟨rfl, by simp, fun g h => ⟨⟨h.nonempty, ?_, h.bound⟩, h.behind⟩, fun g h => ?_⟩
      · have block := h.block
        simp only [Array.size_push]
        omega
      · simp only [Pool.segmentBytes, Array.getElem?_push_lt h.block,
          Array.getElem?_eq_getElem h.block]
    refine ⟨⟨⟨pool.room, ?_, ?_, pool.filled, pool.marked, fun _ => empty⟩, ?_⟩, ?_, keeps⟩
    · intro i block found
      simp only [Array.getElem?_push] at found
      split at found
      · rw [← Option.some.inj found]
        exact Array.size_replicate
      · exact pool.sized found
    · simp only [Array.size_push]
      omega
    · intro g mem
      exact keeps.settled g (sound.target g mem)
    · have list := keeps.listBytes sound.target
      simp only [bytes, Pool.pending, empty, unmarked] at list ⊢
      rw [list]
      simp [Pool.segmentBytes]
  · exact ⟨sound, (List.append_nil _).symm, .refl _⟩

theorem makeRoomGrows {s : Streak} (sound : s.Sound) : s.Grows s.makeRoom [] := by
  unfold makeRoom
  split
  · rename_i inside
    split
    · exact ⟨sound, (List.append_nil _).symm, .refl _⟩
    · have left := leaveBlockGrows sound inside
      exact left.trans (provideBlockGrows left.sound)
  · exact provideBlockGrows sound

theorem provideBlockPlace {s : Streak} (current : s.pool.current ≤ s.pool.blocks.size)
    (free : s.pool.filled < s.pool.blockSize) :
    s.provideBlock.pool.current < s.provideBlock.pool.blocks.size ∧
      s.provideBlock.pool.filled < s.provideBlock.pool.blockSize := by
  unfold provideBlock
  dsimp only
  split
  · simp only [Array.size_push]
    omega
  · omega

theorem makeRoomPlace {s : Streak} (pool : s.pool.Sound) :
    s.makeRoom.pool.current < s.makeRoom.pool.blocks.size ∧
      s.makeRoom.pool.filled < s.makeRoom.pool.blockSize := by
  unfold makeRoom
  split
  · rename_i inside
    split
    · rename_i free
      exact ⟨inside, free⟩
    · exact provideBlockPlace (s := s.leaveBlock) inside pool.room
  · rename_i outside
    have current := pool.current
    have last : s.pool.current = s.pool.blocks.size := by omega
    refine provideBlockPlace current ?_
    rw [pool.fresh last]
    exact pool.room

theorem takeSet (l : Bytes) {from_ to_ : Nat} (b : UInt8) (order : from_ ≤ to_) (inside : to_ < l.length) :
    ((l.set to_ b).drop from_).take (to_ + 1 - from_) = (l.drop from_).take (to_ - from_) ++ [b] := by
  have inner : to_ - from_ < (l.drop from_).length := by
    rw [List.length_drop]
    omega
  rw [List.drop_set, if_neg (by omega), show to_ + 1 - from_ = to_ - from_ + 1 by omega,
    List.take_add_one, List.take_set_of_le (Nat.le_refl _), List.getElem?_set_self inner]
  rfl

def put (s : Streak) (b : UInt8) : Streak :=
  { s with
    pool := { s.pool with
      blocks := s.pool.blocks.modify s.pool.current fun block => block.setIfInBounds s.pool.filled b
      filled := s.pool.filled + 1 } }

theorem putGrows {s : Streak} (sound : s.Sound) (b : UInt8)
    (place : s.pool.current < s.pool.blocks.size ∧ s.pool.filled < s.pool.blockSize) :
    s.Grows (s.put b) [b] := by
  have pool := sound.pool
  have marked := pool.marked
  have present := Array.getElem?_eq_getElem place.1
  have size := pool.sized present
  have keeps : s.pool.Keeps (s.put b).pool := by
    refine ⟨rfl, by simp [put], fun g h => ⟨⟨h.nonempty, ?_, h.bound⟩, ?_⟩, fun g h => ?_⟩
    · simpa [put] using h.block
    · have behind := h.behind
      simp only [put]
      omega
    · have behind := h.behind
      simp only [Pool.segmentBytes, put, Array.getElem?_modify]
      split
      · rename_i here
        rw [← here, present]
        simp only [Option.map_some, Option.getD_some, Array.toList_setIfInBounds]
        rw [List.drop_set]
        split
        · rfl
        · rw [List.take_set_of_le (by omega)]
      · rfl
  refine ⟨⟨⟨pool.room, ?_, ?_, place.2, Nat.le_succ_of_le marked, ?_⟩, ?_⟩, ?_, keeps⟩
  · intro i block found
    simp only [put, Array.getElem?_modify] at found
    split at found
    · obtain ⟨old, there, rfl⟩ := Option.map_eq_some_iff.mp found
      rw [Array.size_setIfInBounds]
      exact pool.sized there
    · exact pool.sized found
  · simpa [put] using pool.current
  · intro last
    simp only [put, Array.size_modify] at last
    omega
  · intro g mem
    exact keeps.settled g (sound.target g mem)
  · have list := keeps.listBytes sound.target
    have target : (s.put b).target = s.target := rfl
    have last : (s.put b).pool.pending = s.pool.pending ++ [b] := by
      simp only [Pool.pending, Pool.segmentBytes, put, Array.getElem?_modify, if_true, present,
        Option.map_some, Option.getD_some, Array.toList_setIfInBounds]
      exact takeSet _ b marked (by rw [Array.length_toList]; omega)
    rw [bytes, bytes, target, list, last, List.append_assoc]

theorem writeByteGrows {s : Streak} (sound : s.Sound) (b : UInt8) : s.Grows (s.writeByte b) [b] := by
  have made := makeRoomGrows sound
  exact made.trans (putGrows made.sound b (makeRoomPlace sound.pool))

theorem writeGrows {s : Streak} (sound : s.Sound) (data : Bytes) : s.Grows (s.write data) data := by
  induction data generalizing s with
  | nil => exact ⟨sound, (List.append_nil _).symm, .refl _⟩
  | cons b rest ih =>
    have first := writeByteGrows sound b
    exact first.trans (ih first.sound)

end Streak

end Ion
