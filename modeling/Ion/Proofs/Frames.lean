import Ion.Proofs.Storage
import Ion.SidWriter

/-! The open frames of a writer as plain bytes. The lists of a writer that was never given up
inside a container start empty, so a frame holds what was written into it and nothing else. -/
namespace Ion

namespace Sink

theorem writeAppend (a b : Bytes) (k : Sink) :
    write (a ++ b) k = (do write a; write b : EStateM SinkError Sink Unit) k := by
  obtain ⟨limit, fails, received⟩ := k
  simp only [bind, EStateM.bind, write, room]
  cases limit with
  | none => simp [List.take_of_length_le]
  | some limit =>
    simp only [List.length_append]
    by_cases first : min a.length (limit - received.length) = a.length
    · simp only [first, if_true, List.take_length, List.length_append]
      have rest : limit - received.length - a.length = limit - (received.length + a.length) := by omega
      by_cases second : min b.length (limit - (received.length + a.length)) = b.length
      · have both : min (a.length + b.length) (limit - received.length) = a.length + b.length := by omega
        have whole : (a ++ b).take (a.length + b.length) = a ++ b :=
          List.take_of_length_le (Nat.le_of_eq List.length_append)
        simp [both, second, whole]
      · have both : min (a.length + b.length) (limit - received.length) =
            a.length + min b.length (limit - (received.length + a.length)) := by omega
        simp [both, second, List.take_length_add_append]
    · have both : min (a.length + b.length) (limit - received.length) =
          min a.length (limit - received.length) := by omega
      have short : min a.length (limit - received.length) ≠ a.length + b.length := by omega
      simp only [both, first, short, if_false]
      rw [List.take_append_of_le_length (Nat.min_le_left _ _)]

theorem writeOk {data : Bytes} {k after : Sink} (ok : write data k = .ok () after) :
    after.received = k.received ++ data := by
  simp only [write] at ok
  split at ok
  · rename_i fits
    cases ok
    simp only [fits, List.take_length]
  · contradiction

end Sink

theorem Pool.writeToBytes (p : Pool) (list : SegmentList) (k : Sink) :
    p.writeTo list k =
      (do Sink.write (p.listBytes list)
          return (p.listBytes list).length : EStateM SinkError Sink Nat) k := by
  induction list generalizing k with
  | nil =>
    obtain ⟨limit, fails, received⟩ := k
    cases limit <;>
      simp [writeTo, listBytes, bind, EStateM.bind, pure, EStateM.pure, Sink.write, Sink.room]
  | cons g rest ih =>
    have split := Sink.writeAppend (p.segmentBytes g) (p.listBytes rest) k
    simp only [listBytes, List.flatMap_cons] at *
    simp only [writeTo, bind, EStateM.bind] at *
    rw [split]
    cases Sink.write (p.segmentBytes g) k with
    | error e k => rfl
    | ok u k =>
      simp only [ih, pure, EStateM.pure, List.length_append]
      cases Sink.write (List.flatMap p.segmentBytes rest) k <;> rfl

structure Body where
  kind : FrameKind
  bytes : Bytes
  deriving DecidableEq, Repr

namespace SidWriter

def bodies (w : SidWriter) : List Body :=
  ⟨w.top.kind, w.out.bytes⟩ :: w.below.map fun p => ⟨p.frame.kind, w.out.pool.listBytes p.segments⟩

def resumed (w : SidWriter) : SidWriter := { w with out := .start w.out.finish.2 w.out.finish.1 }

theorem resumedBytes (w : SidWriter) : w.resumed.out.bytes = w.out.bytes :=
  (Streak.startBytes _ _).trans w.out.finishBytes

theorem resumedBodies (w : SidWriter) : w.resumed.bodies = w.bodies := by
  rw [bodies, resumedBytes]
  rfl

structure Sound (w : SidWriter) : Prop where
  out : w.out.Sound
  settled : ∀ p ∈ w.below, ∀ g ∈ p.segments, w.out.pool.Settled g
  lengths : ∀ p ∈ w.below, p.frame.length = p.segments.total
  top : w.top.length = w.out.bytes.length
  spare : ∀ list ∈ w.spare, list = []

structure Spells (w : SidWriter) (bodies : List Body) : Prop where
  sound : w.Sound
  bodies : w.bodies = bodies

theorem emptySpells (blockSize : Nat) : (empty blockSize).Spells [⟨.datagram, []⟩] := by
  have nothing : ∀ g ∈ ([] : SegmentList), (Pool.empty blockSize).Settled g := by simp
  have bytes := Streak.startBytes (.empty blockSize) []
  constructor
  · exact ⟨Streak.startSound (Pool.emptySound blockSize) nothing, by simp [empty], by simp [empty],
      by simp only [empty, bytes]; rfl, by simp [empty]⟩
  · simp only [SidWriter.bodies, empty, bytes]
    rfl

theorem parkedKept {w : SidWriter} (sound : w.Sound) {q : Pool} (keeps : w.out.pool.Keeps q) :
    (w.below.map fun p => (⟨p.frame.kind, q.listBytes p.segments⟩ : Body)) =
      w.below.map fun p => ⟨p.frame.kind, w.out.pool.listBytes p.segments⟩ := by
  apply List.map_congr_left
  intro p mem
  rw [keeps.listBytes (sound.settled p mem)]

theorem appendSpells {w : SidWriter} {kind : FrameKind} {bytes : Bytes} {rest : List Body}
    (spells : w.Spells (⟨kind, bytes⟩ :: rest)) (data : Bytes) :
    (w.append data).Spells (⟨kind, bytes ++ data⟩ :: rest) := by
  obtain ⟨sound, same⟩ := spells
  have grown := Streak.writeGrows sound.out data
  obtain ⟨first, others⟩ := List.cons.inj same
  obtain ⟨sameKind, sameBytes⟩ := Body.mk.inj first
  refine ⟨⟨grown.sound, ?_, sound.lengths, ?_, sound.spare⟩, ?_⟩
  · intro p mem g inList
    exact grown.keeps.settled g (sound.settled p mem g inList)
  · simp only [append, grown.bytes, List.length_append, sound.top]
  · have kept := parkedKept sound grown.keeps
    simp only [SidWriter.bodies, append, grown.bytes, kept, sameKind, sameBytes, others]

theorem openFrameSpells {w : SidWriter} {bodies : List Body} (spells : w.Spells bodies)
    (kind : FrameKind) : (w.openFrame kind).Spells (⟨kind, []⟩ :: bodies) := by
  obtain ⟨sound, same⟩ := spells
  have keeps := Streak.finishKeeps sound.out
  have settled := Streak.finishSettled sound.out
  have pool := Streak.finishSound sound.out
  have clean : w.spare.head?.getD [] = [] := by
    cases inSpare : w.spare with
    | nil => rfl
    | cons list more => exact sound.spare list (by simp [inSpare])
  have start : (Streak.start w.out.finish.2 []).Sound := Streak.startSound pool (by simp)
  have started : (Streak.start w.out.finish.2 []).bytes = [] := Streak.startBytes _ []
  have marked := w.out.finish.2.markKeeps
  refine ⟨⟨?_, ?_, ?_, ?_, ?_⟩, ?_⟩
  · simpa only [openFrame, clean] using start
  · simp only [openFrame, clean]
    intro p mem g inList
    rcases List.mem_cons.mp mem with rfl | old
    · exact marked.settled g (settled g inList)
    · exact marked.settled g (keeps.settled g (sound.settled p old g inList))
  · simp only [openFrame]
    intro p mem
    rcases List.mem_cons.mp mem with rfl | old
    · have total := Pool.listLength pool fun g mem => (settled g mem).toInside
      rw [Streak.finishBytes] at total
      exact sound.top.trans total
    · exact sound.lengths p old
  · simp only [openFrame, clean, started, List.length_nil]
  · exact fun list mem => sound.spare list (List.mem_of_mem_tail mem)
  · have parked := parkedKept sound (keeps.trans marked)
    have last := (marked.listBytes settled).trans w.out.finishBytes
    rw [← same]
    simp only [SidWriter.bodies, openFrame, clean, started, List.map_cons]
    simp only [Streak.start] at parked last ⊢
    rw [last, parked]

theorem closeFrameSpells {w : SidWriter} {kind outer : FrameKind} {body above : Bytes}
    {rest : List Body} {code : Nat} (spells : w.Spells (⟨kind, body⟩ :: ⟨outer, above⟩ :: rest))
    (coded : kind.code? = some code) :
    w.closeFrame.Spells (⟨outer, above ++ Wire.typed code body⟩ :: rest) := by
  obtain ⟨sound, same⟩ := spells
  obtain ⟨first, others⟩ := List.cons.inj same
  obtain ⟨sameKind, sameBytes⟩ := Body.mk.inj first
  cases below : w.below with
  | nil => simp [below] at others
  | cons parent frames =>
    simp only [below, List.map_cons] at others
    obtain ⟨around, others⟩ := List.cons.inj others
    obtain ⟨outerKind, outerBytes⟩ := Body.mk.inj around
    -- The pool goes through three stages: body recorded, header written, list of the parent resumed.
    have recorded := Streak.finishKeeps sound.out
    have bodyList := Streak.finishSettled sound.out
    have bodyBytes := w.out.finishBytes
    have pool := Streak.finishSound sound.out
    have side : (Streak.start w.out.finish.2 []).Sound := Streak.startSound pool (by simp)
    have header := Streak.writeGrows side (Wire.header code w.top.length)
    have sideBytes : (Streak.start w.out.finish.2 []).bytes = [] := Streak.startBytes _ []
    have joined := Streak.finishKeeps header.sound
    have headList := Streak.finishSettled header.sound
    have headBytes := Streak.finishBytes
      ((Streak.start w.out.finish.2 []).write (Wire.header code w.top.length))
    have last := Streak.finishSound header.sound
    rw [header.bytes, sideBytes, List.nil_append] at headBytes
    have later := (w.out.finish.2.markKeeps.trans header.keeps).trans joined
    have all := recorded.trans later
    generalize written :
      ((Streak.start w.out.finish.2 []).write (Wire.header code w.top.length)).finish = made
      at headBytes headList joined last later all
    have parentList := sound.settled parent (by simp [below])
    have settled : ∀ g ∈ parent.segments ++ made.1 ++ w.out.finish.1, made.2.Settled g := by
      intro g mem
      rcases List.mem_append.mp mem with front | inBody
      · rcases List.mem_append.mp front with inParent | inHeader
        · exact all.settled g (parentList g inParent)
        · exact headList g inHeader
      · exact later.settled g (bodyList g inBody)
    have spelled : made.2.listBytes (parent.segments ++ made.1 ++ w.out.finish.1) =
        above ++ Wire.typed code body := by
      rw [Pool.listBytesAppend, Pool.listBytesAppend, headBytes, later.listBytes bodyList, bodyBytes,
        all.listBytes parentList, sound.top, sameBytes, outerBytes, Wire.typed, List.append_assoc]
    have closed : w.closeFrame = { w with
        out := .start made.2 (parent.segments ++ made.1 ++ w.out.finish.1)
        top := { parent.frame with
          length := parent.frame.length + (Wire.header code w.top.length).length + w.top.length }
        below := frames
        spare := [] :: w.spare } := by
      simp only [closeFrame, below, sameKind, coded, written]
    have bytes := (Streak.startBytes _ _).trans spelled
    have marked := made.2.markKeeps
    rw [closed]
    refine ⟨⟨Streak.startSound last settled, ?_, ?_, ?_, ?_⟩, ?_⟩
    · intro p mem g inList
      exact marked.settled g (all.settled g (sound.settled p (by simp [below, mem]) g inList))
    · intro p mem
      exact sound.lengths p (by simp [below, mem])
    · have parentLength := sound.lengths parent (by simp [below])
      have total := Pool.listLength sound.out.pool fun g mem => (parentList g mem).toInside
      simp only [bytes, sound.top, sameBytes, Wire.typed, List.length_append, parentLength, ← total,
        outerBytes]
      omega
    · intro list mem
      rcases List.mem_cons.mp mem with rfl | old
      · rfl
      · exact sound.spare list old
    · have parked := parkedKept sound (all.trans marked)
      simp only [below, List.map_cons] at parked
      have inner := (List.cons.inj parked).2
      simp only [SidWriter.bodies, bytes, outerKind]
      simp only [Streak.start] at inner ⊢
      rw [inner, others]

theorem closeWrapperPlain {w : SidWriter} {bodies : List Body} (spells : w.Spells bodies)
    (plain : w.top.kind ≠ .wrapper) : w.closeWrapper.Spells bodies := by
  simpa only [closeWrapper, if_neg plain] using spells

theorem closeWrapperSpells {w : SidWriter} {outer : FrameKind} {body above : Bytes}
    {rest : List Body} (spells : w.Spells (⟨.wrapper, body⟩ :: ⟨outer, above⟩ :: rest)) :
    w.closeWrapper.Spells (⟨outer, above ++ Wire.typed wrapperCode body⟩ :: rest) := by
  have kind : w.top.kind = .wrapper := (Body.mk.inj (List.cons.inj spells.bodies).1).1
  simpa only [closeWrapper, if_pos kind] using closeFrameSpells spells rfl

end SidWriter

end Ion
