import Ion.Proofs.Congruence

/-! Two pools filled to the same place: the next bytes go to the same spots of both, so lists that
spell the same bytes in both go on doing so, wherever their segments lie. -/
namespace Ion

namespace Pool

structure Twin (size : Nat) (p q : Pool) : Prop where
  left : p.Sound
  right : q.Sound
  sized : p.blockSize = size
  sized' : q.blockSize = size
  current : p.current = q.current
  filled : p.filled = q.filled
  marked : p.marked = q.marked

structure Shares (p q : Pool) (g : Segment) : Prop where
  left : p.Inside g
  right : q.Inside g
  bytes : p.segmentBytes g = q.segmentBytes g

def Carries (p q p' q' : Pool) : Prop := ∀ g, Shares p q g → Shares p' q' g

theorem Carries.trans {p q p' q' p'' q'' : Pool} (one : Carries p q p' q') (two : Carries p' q' p'' q'') :
    Carries p q p'' q'' := fun g shares => two g (one g shares)

variable {size : Nat} {p q : Pool}

theorem Shares.listBytes {list : SegmentList} (shares : ∀ g ∈ list, Shares p q g) :
    p.listBytes list = q.listBytes list := by
  induction list with
  | nil => rfl
  | cons g rest ih =>
    have first := (shares g List.mem_cons_self).bytes
    have others := ih fun h mem => shares h (List.mem_cons_of_mem g mem)
    simp only [Pool.listBytes, List.flatMap_cons] at *
    rw [first, others]

theorem Twin.blockSize (twin : Twin size p q) : p.blockSize = q.blockSize :=
  twin.sized.trans twin.sized'.symm

theorem Twin.mark (twin : Twin size p q) : Twin size p.mark q.mark :=
  ⟨p.markSound twin.left, q.markSound twin.right, twin.sized, twin.sized', twin.current, twin.filled,
    twin.filled⟩

theorem Twin.reset (twin : Twin size p q) : Twin size p.reset q.reset :=
  ⟨resetSound twin.left, resetSound twin.right, twin.sized, twin.sized', rfl, rfl, rfl⟩

theorem carriesSameBlocks {p' q' : Pool} (blocks : p'.blocks = p.blocks) (blocks' : q'.blocks = q.blocks)
    (size : p'.blockSize = p.blockSize) (size' : q'.blockSize = q.blockSize) : Carries p q p' q' := by
  intro g shares
  obtain ⟨left, right, bytes⟩ := shares
  refine ⟨⟨left.nonempty, ?_, ?_⟩, ⟨right.nonempty, ?_, ?_⟩, ?_⟩
  · rw [blocks]
    exact left.block
  · rw [size]
    exact left.bound
  · rw [blocks']
    exact right.block
  · rw [size']
    exact right.bound
  · simpa only [segmentBytes, blocks, blocks'] using bytes

theorem carriesMark (p q : Pool) : Carries p q p.mark q.mark := carriesSameBlocks rfl rfl rfl rfl

end Pool

namespace Streak

open Pool

structure Twin (size : Nat) (s t : Streak) : Prop where
  pool : Pool.Twin size s.pool t.pool
  target : s.target = t.target
  shares : ∀ g ∈ s.target, Shares s.pool t.pool g
  pending : s.pool.pending = t.pool.pending

structure Moves (size : Nat) (s t s' t' : Streak) : Prop where
  twin : Twin size s' t'
  carries : Carries s.pool t.pool s'.pool t'.pool

theorem Moves.trans {size : Nat} {s t s' t' s'' t'' : Streak} (one : Moves size s t s' t')
    (two : Moves size s' t' s'' t'') :
    Moves size s t s'' t'' := ⟨two.twin, one.carries.trans two.carries⟩

variable {size : Nat} {s t : Streak}

theorem Twin.stays (twin : Twin size s t) : Moves size s t s t := ⟨twin, fun _ shares => shares⟩

theorem startTwin {p q : Pool} {list : SegmentList} (twin : Pool.Twin size p q)
    (shares : ∀ g ∈ list, Shares p q g) : Twin size (start p list) (start q list) := by
  refine ⟨twin.mark, rfl, fun g mem => carriesMark p q g (shares g mem), ?_⟩
  simp only [start, pendingMarked]

theorem startTwinNothing {p q : Pool} (twin : Pool.Twin size p q) : Twin size (start p []) (start q []) :=
  startTwin twin (by simp)

theorem Twin.lastShares (twin : Twin size s t) (waiting : s.pool.marked < s.pool.filled) :
    Shares s.pool t.pool ⟨s.pool.current, s.pool.marked, s.pool.filled - s.pool.marked⟩ := by
  obtain ⟨pool, _, _, pending⟩ := twin
  have left := (pendingSettled pool.left waiting).toInside
  have right := pendingSettled pool.right (by rw [← pool.marked, ← pool.filled]; exact waiting)
  rw [Pool.pending, Pool.pending, ← pool.current, ← pool.marked, ← pool.filled] at *
  exact ⟨left, right.toInside, pending⟩

theorem Twin.record (twin : Twin size s t) : Moves size s t s.record t.record := by
  obtain ⟨pool, target, shares, pending⟩ := twin
  have carries := carriesMark s.pool t.pool
  refine ⟨⟨pool.mark, ?_, ?_, ?_⟩, carries⟩
  · simp only [Streak.record, pool.marked, pool.filled, pool.current, target]
  · intro g mem
    refine carries g ?_
    simp only [Streak.record] at mem
    split at mem
    · rename_i waiting
      rcases List.mem_append.mp mem with old | new
      · exact shares g old
      · rw [List.mem_singleton.mp new]
        exact Twin.lastShares ⟨pool, target, shares, pending⟩ waiting
    · exact shares g mem
  · simp only [Streak.record, pendingMarked]

theorem Twin.leaveBlock (twin : Twin size s t) (inside : s.pool.current < s.pool.blocks.size)
    (inside' : t.pool.current < t.pool.blocks.size) : Moves size s t s.leaveBlock t.leaveBlock := by
  have left : (⟨s.pool, []⟩ : Streak).Sound := ⟨twin.pool.left, by simp⟩
  have right : (⟨t.pool, []⟩ : Streak).Sound := ⟨twin.pool.right, by simp⟩
  have recorded := twin.record
  have carries : Carries s.record.pool t.record.pool s.leaveBlock.pool t.leaveBlock.pool :=
    carriesSameBlocks rfl rfl rfl rfl
  refine recorded.trans ⟨⟨⟨(leaveBlockGrows left inside).sound.pool,
    (leaveBlockGrows right inside').sound.pool, twin.pool.sized, twin.pool.sized', ?_, rfl, rfl⟩,
    recorded.twin.target, fun g mem => carries g (recorded.twin.shares g mem), ?_⟩, carries⟩
  · exact congrArg (· + 1) twin.pool.current
  · simp [Pool.pending, Pool.segmentBytes, Streak.leaveBlock]

theorem provideBlockRest (s : Streak) :
    s.provideBlock.target = s.target ∧ s.provideBlock.pool.blockSize = s.pool.blockSize ∧
      s.provideBlock.pool.current = s.pool.current ∧ s.provideBlock.pool.filled = s.pool.filled ∧
        s.provideBlock.pool.marked = s.pool.marked := by
  unfold provideBlock
  dsimp only
  split <;> exact ⟨rfl, rfl, rfl, rfl, rfl⟩

theorem provideBlockPool (s : Streak) :
    s.provideBlock.pool = (⟨s.pool, []⟩ : Streak).provideBlock.pool := by
  unfold provideBlock
  dsimp only
  split <;> rfl

theorem provideBlockSound (sound : s.pool.Sound) :
    s.provideBlock.pool.Sound ∧ s.provideBlock.pool.pending = s.pool.pending := by
  have alone : (⟨s.pool, []⟩ : Streak).Sound := ⟨sound, by simp⟩
  have grown := provideBlockGrows alone
  have bytes := grown.bytes
  rw [Streak.bytes, (provideBlockRest _).1, ← provideBlockPool] at bytes
  rw [provideBlockPool]
  refine ⟨grown.sound.pool, ?_⟩
  rw [← provideBlockPool]
  simpa [Streak.bytes, Pool.listBytes] using bytes

theorem provideBlockInside {g : Segment} (inside : s.pool.Inside g) :
    s.provideBlock.pool.Inside g ∧ s.provideBlock.pool.segmentBytes g = s.pool.segmentBytes g := by
  have block := inside.block
  unfold provideBlock
  dsimp only
  split
  · refine ⟨⟨inside.nonempty, ?_, inside.bound⟩, ?_⟩
    · rw [Array.size_push]
      omega
    · simp only [Pool.segmentBytes, Array.getElem?_push_lt block, Array.getElem?_eq_getElem block]
  · exact ⟨inside, rfl⟩

theorem Twin.provideBlock (twin : Twin size s t) : Moves size s t s.provideBlock t.provideBlock := by
  have left := provideBlockSound twin.pool.left
  have right := provideBlockSound twin.pool.right
  have rest := s.provideBlockRest
  have rest' := t.provideBlockRest
  have carries : Carries s.pool t.pool s.provideBlock.pool t.provideBlock.pool := by
    intro g shares
    obtain ⟨inside, bytes⟩ := provideBlockInside shares.left
    obtain ⟨inside', bytes'⟩ := provideBlockInside shares.right
    exact ⟨inside, inside', bytes.trans (shares.bytes.trans bytes'.symm)⟩
  refine ⟨⟨⟨left.1, right.1, rest.2.1.trans twin.pool.sized, rest'.2.1.trans twin.pool.sized', ?_, ?_,
    ?_⟩, ?_, ?_, ?_⟩, carries⟩
  · rw [rest.2.2.1, rest'.2.2.1, twin.pool.current]
  · rw [rest.2.2.2.1, rest'.2.2.2.1, twin.pool.filled]
  · rw [rest.2.2.2.2, rest'.2.2.2.2, twin.pool.marked]
  · rw [rest.1, rest'.1, twin.target]
  · intro g mem
    rw [rest.1] at mem
    exact carries g (twin.shares g mem)
  · rw [left.2, right.2, twin.pending]

theorem makeRoomSplit (sound : s.pool.Sound) :
    s.makeRoom =
      if s.pool.filled < s.pool.blockSize then s.provideBlock else s.leaveBlock.provideBlock := by
  have current := sound.current
  have room := sound.room
  unfold makeRoom
  by_cases inside : s.pool.current < s.pool.blocks.size
  · have elsewhere : s.pool.current ≠ s.pool.blocks.size := Nat.ne_of_lt inside
    have kept : s.provideBlock = s := by simp only [provideBlock, if_neg elsewhere]
    rw [if_pos inside, kept]
  · have empty := sound.fresh (by omega)
    rw [if_neg inside, if_pos (by omega)]

theorem Twin.makeRoom (twin : Twin size s t) : Moves size s t s.makeRoom t.makeRoom := by
  rw [makeRoomSplit twin.pool.left, makeRoomSplit twin.pool.right, ← twin.pool.filled,
    ← twin.pool.blockSize]
  split
  · exact twin.provideBlock
  · rename_i full
    have inside {p : Pool} (sound : p.Sound) (full : ¬p.filled < p.blockSize) :
        p.current < p.blocks.size := by
      have current := sound.current
      have room := sound.room
      have fresh := sound.fresh
      omega
    have left := twin.leaveBlock (inside twin.pool.left full)
      (inside twin.pool.right (by rw [← twin.pool.filled, ← twin.pool.blockSize]; exact full))
    exact left.trans left.twin.provideBlock

theorem putStretch {a b : Bytes} {from_ size : Nat}
    (same : (a.drop from_).take size = (b.drop from_).take size) (i : Nat) (byte : UInt8) :
    ((a.set i byte).drop from_).take size = ((b.set i byte).drop from_).take size := by
  rw [List.drop_set, List.drop_set]
  split
  · exact same
  · rw [List.take_set, List.take_set, same]

theorem putInside {g : Segment} (b : UInt8) (inside : s.pool.Inside g) : (s.put b).pool.Inside g :=
  ⟨inside.nonempty, by simpa [put] using inside.block, inside.bound⟩

theorem Twin.put (twin : Twin size s t) (b : UInt8)
    (place : s.pool.current < s.pool.blocks.size ∧ s.pool.filled < s.pool.blockSize)
    (place' : t.pool.current < t.pool.blocks.size ∧ t.pool.filled < t.pool.blockSize) :
    Moves size s t (s.put b) (t.put b) := by
  have alone : (⟨s.pool, []⟩ : Streak).Sound := ⟨twin.pool.left, by simp⟩
  have alone' : (⟨t.pool, []⟩ : Streak).Sound := ⟨twin.pool.right, by simp⟩
  have left := putGrows alone b place
  have right := putGrows alone' b place'
  have carries : Carries s.pool t.pool (s.put b).pool (t.put b).pool := by
    intro g shares
    refine ⟨putInside b shares.left, putInside b shares.right, ?_⟩
    have bytes := shares.bytes
    simp only [Pool.segmentBytes, Streak.put, Array.getElem?_modify, ← twin.pool.current,
      ← twin.pool.filled, Array.getElem?_eq_getElem shares.left.block,
      Array.getElem?_eq_getElem shares.right.block, Option.getD_some] at bytes ⊢
    split
    · simp only [Option.map_some, Option.getD_some, Array.toList_setIfInBounds]
      exact putStretch bytes _ b
    · simpa using bytes
  refine ⟨⟨⟨left.sound.pool, right.sound.pool, twin.pool.sized, twin.pool.sized', twin.pool.current, ?_,
    twin.pool.marked⟩, twin.target, fun g mem => carries g (twin.shares g mem), ?_⟩, carries⟩
  · exact congrArg (· + 1) twin.pool.filled
  · have bytes := left.bytes
    have bytes' := right.bytes
    simp only [Streak.bytes, Streak.put, Pool.listBytes, List.flatMap_nil, List.nil_append]
      at bytes bytes' ⊢
    rw [bytes, bytes', twin.pending]

theorem Twin.writeByte (twin : Twin size s t) (b : UInt8) :
    Moves size s t (s.writeByte b) (t.writeByte b) := by
  have made := twin.makeRoom
  exact made.trans (made.twin.put b (makeRoomPlace twin.pool.left) (makeRoomPlace twin.pool.right))

theorem Twin.write (twin : Twin size s t) (data : Bytes) :
    Moves size s t (s.write data) (t.write data) := by
  induction data generalizing s t with
  | nil => exact twin.stays
  | cons b rest ih =>
    have first := twin.writeByte b
    exact first.trans (ih first.twin)

theorem Twin.finish (twin : Twin size s t) :
    s.finish.1 = t.finish.1 ∧ Pool.Twin size s.finish.2 t.finish.2 ∧
      (∀ g ∈ s.finish.1, Shares s.finish.2 t.finish.2 g) ∧
        Carries s.pool t.pool s.finish.2 t.finish.2 := by
  have recorded := twin.record
  exact ⟨recorded.twin.target, recorded.twin.pool, recorded.twin.shares, recorded.carries⟩

end Streak

namespace SidWriter

open Pool

structure Twin (size : Nat) (w v : SidWriter) : Prop where
  out : Streak.Twin size w.out v.out
  top : w.top = v.top
  below : w.below = v.below
  parked : ∀ p ∈ w.below, ∀ g ∈ p.segments, Shares w.out.pool v.out.pool g
  spare : ∃ k, w.spare = v.spare ++ List.replicate k []
  kept : ∀ list ∈ w.spare, ∀ g ∈ list, Shares w.out.pool v.out.pool g
  field : w.field = v.field
  annotations : w.annotations = v.annotations
  poisoned : w.poisoned = v.poisoned

variable {size : Nat} {w v : SidWriter}

theorem Twin.frames (twin : Twin size w v) : w.frames = v.frames := by
  rw [SidWriter.frames, twin.top, twin.below, SidWriter.frames]

theorem Twin.pending (twin : Twin size w v) {field field' : Option Nat} {sids sids' : List Nat}
    {poisoned poisoned' : Bool} (sameField : field = field') (sameSids : sids = sids')
    (samePoison : poisoned = poisoned') :
    Twin size { w with field, annotations := sids, poisoned }
      { v with field := field', annotations := sids', poisoned := poisoned' } :=
  ⟨twin.out, twin.top, twin.below, twin.parked, twin.spare, twin.kept, sameField, sameSids, samePoison⟩

theorem Twin.append (twin : Twin size w v) (data : Bytes) : Twin size (w.append data) (v.append data) := by
  have moves := twin.out.write data
  refine ⟨moves.twin, ?_, twin.below, fun p mem g inList => moves.carries g (twin.parked p mem g inList),
    twin.spare, fun list mem g inList => moves.carries g (twin.kept list mem g inList), twin.field,
    twin.annotations, twin.poisoned⟩
  simp only [SidWriter.append, twin.top]

theorem Twin.spared (twin : Twin size w v) :
    w.spare.head?.getD [] = v.spare.head?.getD [] ∧
      ∃ k, w.spare.tail = v.spare.tail ++ List.replicate k [] := by
  obtain ⟨k, spare⟩ := twin.spare
  cases others : v.spare with
  | nil =>
    rw [spare, others, List.nil_append]
    cases k with
    | zero => exact ⟨rfl, 0, rfl⟩
    | succ k => exact ⟨rfl, k, rfl⟩
  | cons list rest =>
    rw [spare, others]
    exact ⟨rfl, k, rfl⟩

theorem Twin.openFrame (twin : Twin size w v) (kind : FrameKind) :
    Twin size (w.openFrame kind) (v.openFrame kind) := by
  obtain ⟨list, pool, shares, carries⟩ := twin.out.finish
  obtain ⟨head, tail⟩ := twin.spared
  have marked := carriesMark w.out.finish.2 v.out.finish.2
  have first : ∀ g ∈ w.spare.head?.getD [], Shares w.out.finish.2 v.out.finish.2 g := by
    cases spare : w.spare with
    | nil => simp
    | cons list rest =>
      exact fun g inList => carries g (twin.kept list (by rw [spare]; exact List.mem_cons_self) g inList)
  have started := Streak.startTwin pool first
  refine ⟨?_, rfl, ?_, ?_, tail, ?_, twin.field, twin.annotations, twin.poisoned⟩
  · simpa only [SidWriter.openFrame, ← head] using started
  · simp only [SidWriter.openFrame, twin.top, twin.below, list]
  · intro p mem g inList
    rcases List.mem_cons.mp mem with rfl | old
    · exact marked g (shares g inList)
    · exact marked g (carries g (twin.parked p old g inList))
  · intro list mem g inList
    exact marked g (carries g (twin.kept list (List.mem_of_mem_tail mem) g inList))

theorem Twin.closeFrame (twin : Twin size w v) : Twin size w.closeFrame v.closeFrame := by
  cases below : w.below with
  | nil =>
    have below' : v.below = [] := by rw [← twin.below, below]
    simpa only [SidWriter.closeFrame, below, below'] using twin
  | cons parent frames =>
    have below' : v.below = parent :: frames := by rw [← twin.below, below]
    cases code : w.top.kind.code? with
    | none =>
      have code' : v.top.kind.code? = none := by rw [← twin.top, code]
      simpa only [SidWriter.closeFrame, below, below', code, code'] using twin
    | some code' =>
      obtain ⟨body, pool, bodyShares, first⟩ := twin.out.finish
      have header : v.top.length = w.top.length := by rw [twin.top]
      have side := Streak.startTwinNothing pool
      have written := side.write (Wire.header code' w.top.length)
      obtain ⟨head, pool', headShares, last⟩ := written.twin.finish
      have marked := carriesMark w.out.finish.2 v.out.finish.2
      have later := (marked.trans written.carries).trans last
      have all := first.trans later
      simp only [SidWriter.closeFrame, below, below', code, ← twin.top, ← body, ← head]
      generalize ((Streak.start w.out.finish.2 []).write (Wire.header code' w.top.length)).finish = made
        at headShares pool' last later all
      generalize ((Streak.start v.out.finish.2 []).write (Wire.header code' w.top.length)).finish = made'
        at headShares pool' last later all
      have shares : ∀ g ∈ parent.segments ++ made.1 ++ w.out.finish.1, Shares made.2 made'.2 g := by
        intro g mem
        rcases List.mem_append.mp mem with front | inBody
        · rcases List.mem_append.mp front with inParent | inHeader
          · exact all g (twin.parked parent (by rw [below]; exact List.mem_cons_self) g inParent)
          · exact headShares g inHeader
        · exact later g (bodyShares g inBody)
      have ended := carriesMark made.2 made'.2
      obtain ⟨k, spare⟩ := twin.spare
      refine ⟨Streak.startTwin pool' shares, rfl, rfl, ?_, ⟨k, by rw [spare]; rfl⟩, ?_, twin.field,
        twin.annotations, twin.poisoned⟩
      · intro p mem g inList
        exact ended g (all g (twin.parked p (by rw [below]; exact List.mem_cons_of_mem _ mem) g inList))
      · intro list mem g inList
        rcases List.mem_cons.mp mem with rfl | old
        · contradiction
        · exact ended g (all g (twin.kept list old g inList))

theorem Twin.abandoned (twin : Twin size w v) :
    (∃ k, w.abandoned = v.abandoned ++ List.replicate k []) ∧
      ∀ list ∈ w.abandoned, ∀ g ∈ list, Shares w.out.pool v.out.pool g := by
  obtain ⟨k, spare⟩ := twin.spare
  unfold SidWriter.abandoned
  rw [← twin.below]
  split
  · exact ⟨⟨k, spare⟩, twin.kept⟩
  · refine ⟨⟨k, by rw [spare, List.append_assoc]; rfl⟩, ?_⟩
    intro list mem g inList
    rcases List.mem_append.mp mem with open_ | closed
    · obtain ⟨p, known, rfl⟩ := List.mem_map.mp open_
      exact twin.parked p (List.dropLast_subset w.below (List.mem_reverse.mp known)) g inList
    · rcases List.mem_cons.mp closed with rfl | old
      · contradiction
      · exact twin.kept list old g inList

theorem Twin.restart (twin : Twin size w v) : Twin size w.restart v.restart := by
  obtain ⟨spare, kept⟩ := twin.abandoned
  have carries : Carries w.out.pool v.out.pool w.out.pool.reset.mark v.out.pool.reset.mark :=
    carriesSameBlocks rfl rfl rfl rfl
  exact ⟨Streak.startTwinNothing twin.out.pool.reset, rfl, rfl, by simp [SidWriter.restart], spare,
    fun list mem g inList => carries g (kept list mem g inList), rfl, rfl, twin.poisoned⟩

theorem Twin.bytes (twin : Twin size w v) : w.out.bytes = v.out.bytes := by
  obtain ⟨list, -, shares, -⟩ := twin.out.finish
  rw [← w.out.finishBytes, ← v.out.finishBytes, ← list, Shares.listBytes shares]

theorem Twin.resumed (twin : Twin size w v) : Twin size w.resumed v.resumed := by
  obtain ⟨list, pool, shares, carries⟩ := twin.out.finish
  have all := carries.trans (carriesMark w.out.finish.2 v.out.finish.2)
  refine ⟨?_, twin.top, twin.below, fun p mem g inList => all g (twin.parked p mem g inList), twin.spare,
    fun list mem g inList => all g (twin.kept list mem g inList), twin.field, twin.annotations,
    twin.poisoned⟩
  simpa only [SidWriter.resumed, ← list] using Streak.startTwin pool shares

theorem Twin.congruence : Congruence (Twin size) where
  frames := Twin.frames
  field := Twin.field
  annotations := Twin.annotations
  poisoned := Twin.poisoned
  bytes := Twin.bytes
  pending twin _ _ _ := twin.pending rfl rfl rfl
  append := Twin.append
  openFrame := Twin.openFrame
  closeFrame := Twin.closeFrame
  restart twin _ := twin.restart
  resumed := Twin.resumed

theorem Twin.inStruct (twin : Twin size w v) : w.inStruct = v.inStruct := Twin.congruence.inStruct twin

theorem Twin.reset (twin : Twin size w v) : Twin size w.reset v.reset :=
  Twin.congruence.reset Twin.restart twin

theorem Twin.flush (twin : Twin size w v) (sink : Sink) :
    Alike (SameSink (Twin size)) (SidWriter.flush (w, sink)) (SidWriter.flush (v, sink)) :=
  Twin.congruence.flush twin sink

theorem Twin.call (request : SidRequest) : Both (Twin size) request.call request.call :=
  Twin.congruence.call request

theorem Twin.performs {w v : SidWriter} (request : SidRequest) (twin : Twin size w v) :
    (w.perform request).1 = (v.perform request).1 ∧
      Twin size (w.perform request).2 (v.perform request).2 :=
  Twin.congruence.performsAny Twin.restart request twin

theorem Twin.empty (blockSize : Nat) :
    Twin (max blockSize 16) (.empty blockSize) (.empty blockSize) := by
  have pool : Pool.Twin (max blockSize 16) (.empty blockSize) (.empty blockSize) :=
    ⟨emptySound blockSize, emptySound blockSize, rfl, rfl, rfl, rfl, rfl⟩
  exact ⟨Streak.startTwinNothing pool, rfl, rfl, by simp [SidWriter.empty], ⟨0, rfl⟩,
    by simp [SidWriter.empty], rfl, rfl, rfl⟩

theorem Twin.fresh {blockSize : Nat} (twin : Twin (max blockSize 16) w w)
    (clean : ∀ list ∈ w.abandoned, list = []) : Twin (max blockSize 16) w.reset (.empty blockSize) := by
  have pool : Pool.Twin (max blockSize 16) w.out.pool.reset (.empty blockSize) :=
    ⟨resetSound twin.out.pool.left, emptySound blockSize, twin.out.pool.sized, rfl, rfl, rfl, rfl⟩
  have spare : w.abandoned = List.replicate w.abandoned.length [] := List.eq_replicate_of_mem clean
  refine ⟨Streak.startTwinNothing pool, rfl, rfl, by simp [SidWriter.reset, SidWriter.restart],
    ⟨w.abandoned.length, spare⟩, ?_, rfl, rfl, rfl⟩
  intro list mem g inList
  rw [clean list mem] at inList
  contradiction

end SidWriter

end Ion
