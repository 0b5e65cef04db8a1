import Ion.Proofs.SessionTwins

/-! What a reset leaves behind. The list of a frame that was open around another keeps its segments
through a reset, and the frame opened in its place later starts from them. So a writer is as new after
a reset if and only if no such list has segments in it. -/
namespace Ion

theorem SegmentList.totalAppend (a b : SegmentList) : total (a ++ b) = a.total + b.total := by
  induction a with
  | nil => exact (Nat.zero_add _).symm
  | cons g rest ih =>
    simp only [List.cons_append, SegmentList.total, ih]
    omega

theorem SegmentList.totalZero {list : SegmentList} (nonempty : ∀ g ∈ list, 0 < g.length)
    (zero : list.total = 0) : list = [] := by
  cases list with
  | nil => rfl
  | cons g rest =>
    have positive := nonempty g List.mem_cons_self
    simp only [SegmentList.total] at zero
    omega

theorem SegmentList.totalTaken (lists : List SegmentList) (n : Nat) :
    total (lists.take (n + 1)).flatten =
      total (lists.head?.getD []) + total (lists.tail.take n).flatten := by
  cases lists with
  | nil => simp [SegmentList.total]
  | cons list rest => exact totalAppend list _

namespace Streak

def weight (s : Streak) : Nat := s.target.total + (s.pool.filled - s.pool.marked)

theorem startWeight (p : Pool) (list : SegmentList) : (start p list).weight = list.total := by
  simp [start, weight, Pool.mark]

theorem finishTotal (s : Streak) : s.finish.1.total = s.weight := by
  show s.record.target.total = s.weight
  unfold record weight
  dsimp only
  split
  · rw [SegmentList.totalAppend]
    rfl
  · omega

theorem leaveBlockWeight (s : Streak) : s.leaveBlock.weight = s.weight := by
  have total : s.leaveBlock.target.total = s.weight := s.finishTotal
  have nothing : s.leaveBlock.pool.filled - s.leaveBlock.pool.marked = 0 := rfl
  rw [weight, total, nothing, Nat.add_zero]

theorem provideBlockWeight (s : Streak) : s.provideBlock.weight = s.weight := by
  obtain ⟨target, -, -, filled, marked⟩ := s.provideBlockRest
  rw [weight, target, filled, marked, weight]

variable {size : Nat} {s t : Streak}

theorem makeRoomWeight (sound : s.pool.Sound) : s.makeRoom.weight = s.weight := by
  rw [makeRoomSplit sound]
  split
  · exact s.provideBlockWeight
  · exact s.leaveBlock.provideBlockWeight.trans s.leaveBlockWeight

theorem Twin.writeWeight (twin : Twin size s t) (data : Bytes) :
    (s.write data).weight = s.weight + data.length := by
  induction data generalizing s t with
  | nil => rfl
  | cons b rest ih =>
    have marked := twin.makeRoom.twin.pool.left.marked
    have one : (s.writeByte b).weight = s.makeRoom.weight + 1 := by
      show s.makeRoom.target.total + (s.makeRoom.pool.filled + 1 - s.makeRoom.pool.marked) = _
      unfold weight
      omega
    have more := ih (twin.writeByte b).twin
    show ((s.writeByte b).write rest).weight = _
    rw [more, one, makeRoomWeight twin.pool.left, List.length_cons]
    omega

end Streak

def Calls.nest (inward outward : ρ) : Nat → List ρ
  | 0 => []
  | n + 1 => inward :: (nest inward outward n ++ [outward])

namespace SidRequest

def nest (n : Nat) : List SidRequest := Calls.nest (.stepIn .list) .stepOut n

def nested : Nat → Nat
  | 0 => 0
  | n + 1 => (Wire.header ValueType.list.code (nested n)).length + nested n

end SidRequest

namespace SidWriter

open SidRequest

structure Ready (w : SidWriter) : Prop where
  field : w.field = none
  annotations : w.annotations = []
  poisoned : w.poisoned = false
  kind : w.top.kind = .datagram ∨ w.top.kind = .container .list

structure Nested (n : Nat) (w w' : SidWriter) : Prop where
  ready : w'.Ready
  below : w'.below = w.below
  top : w'.top = ⟨w.top.kind, w.top.length + nested n⟩
  weight : w'.out.weight = w.out.weight + nested n + SegmentList.total (w.spare.take n).flatten

variable {size : Nat} {w w' : SidWriter}

theorem Ready.outside (ready : w.Ready) : w.inStruct = false := by
  rcases ready.kind with root | list
  · rw [SidWriter.inStruct, root]
    rfl
  · rw [SidWriter.inStruct, list]
    rfl

theorem Ready.stepsIn (ready : w.Ready) :
    w.perform (.stepIn .list) = (.done, w.openFrame (.container .list)) := by
  have plain : w.named = w := by simp only [SidWriter.named, ready.field]
  have opens : w.openValue = .ok w := by
    rw [openValueNamed, plain, ready.outside, ready.annotations]
    rfl
  refine Reply.ofCallRuns ?_
  simp only [SidWriter.stepIn, SidWriter.guarded, ready.poisoned, ValueType.container?, opens]
  rfl

theorem Ready.stepsOut (ready : w.Ready) {parent : ParkedFrame} {frames : List ParkedFrame}
    (list : w.top.kind = .container .list) (below : w.below = parent :: frames)
    (plain : parent.frame.kind ≠ .wrapper) : w.perform .stepOut = (.done, w.closeFrame) := by
  have top : w.closeFrame.top.kind = parent.frame.kind := by
    simp only [SidWriter.closeFrame, below, list, FrameKind.code?]
  have closed : w.closeFrame.closeWrapper = w.closeFrame := by
    rw [SidWriter.closeWrapper, top, if_neg plain]
  refine Reply.ofCallRuns ?_
  simp only [SidWriter.stepOut, SidWriter.guarded, ready.poisoned, ready.field, ready.annotations, list,
    closed]
  rfl

theorem closeFrameWeight (twin : Twin size w w) {parent : ParkedFrame} {frames : List ParkedFrame}
    {code : Nat} (below : w.below = parent :: frames) (kind : w.top.kind.code? = some code) :
    w.closeFrame.out.weight =
      parent.segments.total + (Wire.header code w.top.length).length + w.out.weight := by
  have header := (Streak.startTwinNothing twin.out.finish.2.1).writeWeight (Wire.header code w.top.length)
  have nothing : SegmentList.total [] = 0 := rfl
  rw [Streak.startWeight, nothing, Nat.zero_add] at header
  simp only [SidWriter.closeFrame, below, kind, Streak.startWeight, SegmentList.totalAppend,
    Streak.finishTotal, header]

theorem Nested.closed {n : Nat} (inner : Nested n (w.openFrame (.container .list)) w')
    (twin : Twin size w' w') (ready : w.Ready) :
    w'.perform .stepOut = (.done, w'.closeFrame) ∧ Nested (n + 1) w w'.closeFrame := by
  have kind : w'.top.kind = .container .list := by rw [inner.top]; rfl
  have length : w'.top.length = nested n := by
    rw [inner.top]
    exact Nat.zero_add _
  have below : w'.below = ⟨w.top, w.out.finish.1⟩ :: w.below := inner.below
  have plain : w.top.kind ≠ .wrapper := by
    rcases ready.kind with root | list
    · rw [root]
      decide
    · rw [list]
      decide
  have code : w'.top.kind.code? = some ValueType.list.code := by rw [kind]; rfl
  have weight := closeFrameWeight twin below code
  have body := inner.weight
  have first : (w.openFrame (.container .list)).out.weight = (w.spare.head?.getD []).total :=
    Streak.startWeight _ _
  have rest : (w.openFrame (.container .list)).spare = w.spare.tail := rfl
  have pending := w'.closeFrameRest
  refine ⟨inner.ready.stepsOut kind below plain, ⟨pending.1.trans inner.ready.field,
    pending.2.1.trans inner.ready.annotations, pending.2.2.trans inner.ready.poisoned, ?_⟩, ?_, ?_, ?_⟩
  · simpa only [SidWriter.closeFrame, below, code] using ready.kind
  · simp only [SidWriter.closeFrame, below, code]
  · simp only [SidWriter.closeFrame, below, code, length, nested, Nat.add_assoc]
  · rw [weight, body, first, rest, length, Streak.finishTotal, SegmentList.totalTaken, nested]
    omega

theorem nestRuns (n : Nat) (twin : Twin size w w) (ready : w.Ready) :
    ∃ w', Calls.Runs SidWriter.perform w (nest n) w' ∧ Twin size w' w' ∧ Nested n w w' := by
  induction n generalizing w with
  | zero => exact ⟨w, .nothing w, twin, ready, rfl, rfl, by simp [nested, SegmentList.total]⟩
  | succ n ih =>
    have opened : (w.openFrame (.container .list)).Ready :=
      ⟨ready.field, ready.annotations, ready.poisoned, .inr rfl⟩
    obtain ⟨inner, runs, related, grown⟩ := ih (twin.openFrame (.container .list)) opened
    obtain ⟨closes, whole⟩ := grown.closed related ready
    exact ⟨inner.closeFrame, .first ready.stepsIn (runs.append (.one closes)), related.closeFrame, whole⟩

theorem Ready.checks (ready : w.Ready) (top : w.below = []) : SidWriter.checkFlushable w = .ok () w :=
  SidWriter.readyChecks top ready.annotations ready.poisoned

theorem Ready.flushes (ready : w.Ready) (twin : Twin size w w) (top : w.below = []) (received : Bytes) :
    ∃ last, SidWriter.flush (w, ⟨none, false, received⟩) =
      .ok w.out.weight (w.restart, ⟨none, false, last⟩) := by
  obtain ⟨-, pool, shares, -⟩ := twin.out.finish
  have length := Pool.listLength pool.left fun g mem => (shares g mem).left
  rw [Streak.finishTotal] at length
  have taken := Sink.writeUnlimited (w.out.finish.2.listBytes w.out.finish.1) ⟨none, false, received⟩ rfl
  have sent : w.out.finish.2.writeTo w.out.finish.1 ⟨none, false, received⟩ =
      .ok w.out.weight ⟨none, false, received ++ w.out.finish.2.listBytes w.out.finish.1⟩ := by
    simp only [Pool.writeToBytes, bind, EStateM.bind, taken, length]
    rfl
  refine ⟨received ++ w.out.finish.2.listBytes w.out.finish.1, ?_⟩
  simp only [SidWriter.flush, ready.checks top, sent]

theorem nestFlushed (n : Nat) (twin : Twin size w w) (ready : w.Ready) (top : w.below = [])
    (nothing : w.out.weight = 0) (received : Bytes) :
    ∃ w' last, Calls.Runs SidWriter.perform w (nest n) w' ∧ SidWriter.checkFlushable w' = .ok () w' ∧
      SidWriter.flush (w', ⟨none, false, received⟩) =
        .ok (nested n + SegmentList.total (w.spare.take n).flatten) (w'.restart, ⟨none, false, last⟩) := by
  obtain ⟨w', runs, related, grown⟩ := nestRuns n twin ready
  have top' := grown.below.trans top
  obtain ⟨last, sent⟩ := grown.ready.flushes related top' received
  rw [grown.weight, nothing, Nat.zero_add] at sent
  exact ⟨w', last, runs, grown.ready.checks top', sent⟩

theorem resetReady (w : SidWriter) :
    w.reset.Ready ∧ w.reset.below = [] ∧ w.reset.out.weight = 0 ∧ w.reset.spare = w.abandoned :=
  ⟨⟨rfl, rfl, rfl, .inl rfl⟩, rfl, Streak.startWeight _ _, rfl⟩

theorem emptyReady (blockSize : Nat) :
    (SidWriter.empty blockSize).Ready ∧ (SidWriter.empty blockSize).below = [] ∧
      (SidWriter.empty blockSize).out.weight = 0 ∧ (SidWriter.empty blockSize).spare = [] :=
  ⟨⟨rfl, rfl, rfl, .inl rfl⟩, rfl, rfl, rfl⟩

def Clean (w : SidWriter) : Prop := ∀ list ∈ w.abandoned, list = []

theorem Twin.clean (twin : Twin size w w) (zero : SegmentList.total w.abandoned.flatten = 0) :
    w.Clean := by
  have nonempty : ∀ g ∈ w.abandoned.flatten, 0 < g.length := by
    intro g mem
    obtain ⟨list, known, inList⟩ := List.mem_flatten.mp mem
    exact (twin.abandoned.2 list known g inList).left.nonempty
  exact List.flatten_eq_nil_iff.mp (SegmentList.totalZero nonempty zero)

def view (w : SidWriter) : Nat × Nat × Bool × Bool × Nat × Bool :=
  (w.depth, w.bufferedLength, w.inStruct, w.field.isSome, w.annotations.length, w.poisoned)

theorem Twin.view {v : SidWriter} (twin : Twin size w v) : w.view = v.view := by
  simp only [SidWriter.view, SidWriter.depth, SidWriter.bufferedLength, twin.frames, twin.inStruct,
    twin.field, twin.annotations, twin.poisoned]

theorem freshIff {blockSize : Nat} (twin : Twin (max blockSize 16) w w) :
    (∀ later, Calls.trace SidWriter.perform SidWriter.view w.reset later =
        Calls.trace SidWriter.perform SidWriter.view (.empty blockSize) later) ↔ w.Clean := by
  constructor
  · intro same
    obtain ⟨ready, top, nothing, spare⟩ := w.resetReady
    obtain ⟨ready', top', nothing', spare'⟩ := emptyReady blockSize
    obtain ⟨u, last, runs, -, sent⟩ := nestFlushed w.abandoned.length twin.reset ready top nothing []
    obtain ⟨u', last', runs', -, sent'⟩ :=
      nestFlushed w.abandoned.length (Twin.empty blockSize) ready' top' nothing' []
    have replies := Calls.traceLast (same (nest w.abandoned.length ++ [.flush ⟨none, false, []⟩]))
    rw [runs.1, runs'.1, SidWriter.perform, SidWriter.perform, Reply.flushedIff.mpr sent,
      Reply.flushedIff.mpr sent', spare, spare'] at replies
    have counts := (Reply.flushed.inj replies).1
    rw [List.take_length, List.take_nil] at counts
    exact twin.clean (Nat.add_left_cancel counts)
  · intro clean later
    exact Calls.traceAlike (fun request => Twin.performs request) (fun same => same.view)
      (twin.fresh clean) later

end SidWriter

namespace SessionWriter

open SidRequest

variable {tables : List SharedTable} {size : Nat} {w : SessionWriter}

def nest (n : Nat) : List SessionRequest := Calls.nest (.stepIn .list) .stepOut n

theorem nestResolves (t : SymbolTable) (n : Nat) :
    SessionRequest.Resolves t (nest n) (SidRequest.nest n) t := by
  induction n with
  | zero => exact .nothing
  | succ n ih => exact .first rfl (ih.append (.first rfl .nothing))

theorem nestFlushed (n : Nat) (steady : w.Steady tables) (twin : SidWriter.Twin size w.user w.user)
    (ready : w.user.Ready) (top : w.user.below = []) (nothing : w.user.out.weight = 0) :
    ∃ w' head s, Calls.Runs perform w (nest n) w' ∧ Item.encodeAll? w.announcement = .ok head ∧
      flush (w', ⟨none, false, []⟩) =
        .ok (head.length + (nested n + SegmentList.total (w.user.spare.take n).flatten)) s := by
  obtain ⟨user, last, runs, ready', sent⟩ := SidWriter.nestFlushed n twin ready top nothing []
  have below := runsResolved (nestResolves w.symbols n) runs
  obtain ⟨head, encoded, sends⟩ := (steady.grown (.refl w.symbols) user).sends ready' []
  obtain ⟨user', last', runs', -, sent'⟩ := SidWriter.nestFlushed n twin ready top nothing ([] ++ head)
  rw [runs'.1.symm.trans runs.1] at sent'
  obtain ⟨s, ok⟩ := sends sent'
  exact ⟨_, head, s, below, encoded, ok⟩

def view (w : SessionWriter) : Nat × Bool × SymbolTable := (w.user.depth, w.user.inStruct, w.symbols)

theorem Twin.view {v : SessionWriter} (twin : Twin tables size w v) : w.view = v.view := by
  simp only [SessionWriter.view, SidWriter.depth, twin.user.frames, twin.user.inStruct, twin.symbols]

theorem Twin.resetSteady (twin : Twin tables size w w) : w.reset.Steady tables := by
  obtain ⟨items, same⟩ := twin.system.values
  exact ⟨twin.imports, (SidWriter.betweenReset same).2, Nat.zero_le _, fun _ => rfl, fun _ => rfl⟩

theorem Twin.resetSymbols (twin : Twin tables size w w) (blockSize : Nat) :
    w.reset.symbols = (SessionWriter.empty blockSize tables).symbols :=
  congrArg SymbolTable.ofImports twin.imports

theorem Twin.resetAnnounces (twin : Twin tables size w w) (blockSize : Nat) :
    w.reset.announcement = (SessionWriter.empty blockSize tables).announcement := by
  simp only [announcement, SessionWriter.needsTable, undeclared, twin.resetSymbols blockSize]
  rfl

theorem Twin.resetView (twin : Twin tables size w w) (blockSize : Nat) :
    w.reset.view = (SessionWriter.empty blockSize tables).view := by
  rw [SessionWriter.view, twin.resetSymbols blockSize]
  rfl

theorem freshIff {blockSize : Nat} (twin : Twin tables (max blockSize 16) w w) :
    (∀ later, Calls.trace perform SessionWriter.view w.reset later =
        Calls.trace perform SessionWriter.view (.empty blockSize tables) later) ↔ w.user.Clean := by
  constructor
  · intro same
    obtain ⟨ready, top, nothing, spare⟩ := w.user.resetReady
    obtain ⟨ready', top', nothing', spare'⟩ := SidWriter.emptyReady blockSize
    obtain ⟨u, head, s, runs, encoded, sent⟩ :=
      nestFlushed w.user.abandoned.length twin.resetSteady twin.user.reset ready top nothing
    obtain ⟨u', head', s', runs', encoded', sent'⟩ :=
      nestFlushed w.user.abandoned.length (.empty blockSize tables) (SidWriter.Twin.empty blockSize)
        ready' top' nothing'
    rw [twin.resetAnnounces blockSize, encoded'] at encoded
    cases encoded
    have replies := Calls.traceLast (same (nest w.user.abandoned.length ++ [.flush ⟨none, false, []⟩]))
    rw [runs.1, runs'.1, perform, perform, Reply.flushedIff.mpr sent, Reply.flushedIff.mpr sent']
      at replies
    have counts := Nat.add_left_cancel (Nat.add_left_cancel (Reply.flushed.inj replies).1)
    have left : w.reset.user.spare = w.user.abandoned := spare
    have unused : (SessionWriter.empty blockSize tables).user.spare = [] := spare'
    rw [left, unused, List.take_length, List.take_nil] at counts
    exact twin.user.clean counts
  · intro clean later
    exact Calls.traceAlike (fun request => Twin.performs request) (fun same => same.view)
      (twin.fresh clean) later

end SessionWriter

theorem resetFresh (blockSize : Nat) (tables : List SharedTable) :
    (∀ history,
      let w := Calls.after SidWriter.perform (.empty blockSize) history
      w.reset.view = (SidWriter.empty blockSize).view ∧
        ((∀ later, Calls.trace SidWriter.perform SidWriter.view w.reset later =
            Calls.trace SidWriter.perform SidWriter.view (.empty blockSize) later) ↔ w.Clean)) ∧
    (∀ history,
      let w := Calls.after SessionWriter.perform (.empty blockSize tables) history
      w.reset.view = (SessionWriter.empty blockSize tables).view ∧
        ((∀ later, Calls.trace SessionWriter.perform SessionWriter.view w.reset later =
            Calls.trace SessionWriter.perform SessionWriter.view (.empty blockSize tables) later) ↔
          w.user.Clean)) := by
  constructor
  · intro history w
    have twin : SidWriter.Twin (max blockSize 16) w w :=
      Calls.afterAlike (fun request => SidWriter.Twin.performs request) (.empty blockSize) history
    exact ⟨rfl, SidWriter.freshIff twin⟩
  · intro history w
    have twin : SessionWriter.Twin tables (max blockSize 16) w w :=
      Calls.afterAlike (fun request => SessionWriter.Twin.performs request) (.empty blockSize tables)
        history
    exact ⟨twin.resetView blockSize, SessionWriter.freshIff twin⟩

theorem resetKeepsSegments :
    Calls.replies SidWriter.perform
        (Calls.after SidWriter.perform (.empty Pool.defaultBlockSize)
          [.stepIn .list, .write (.bool true), .stepIn .list, .reset])
        [.stepIn .list, .stepOut, .flush (.empty none false)] =
      [.done, .done, .flushed 2 ⟨none, false, [0xB0, 0xB0]⟩] ∧
    Calls.replies SidWriter.perform (.empty Pool.defaultBlockSize)
        [.stepIn .list, .stepOut, .flush (.empty none false)] =
      [.done, .done, .flushed 1 ⟨none, false, [0xB0]⟩] := by
  decide +kernel

end Ion
