import Ion.Proofs.Segments
import Ion.Proofs.Slots
import Ion.Proofs.Resets
import Mathlib.Algebra.GroupWithZero.Nat
import Mathlib.Data.List.Chain

/-! The stack of open frames, as it is stored. What holds of it holds after every call of a run without
resets, whether the calls fail or not. -/
namespace Ion

namespace Layout

variable {items : List Item} {inside : List OpenContainer} {bodies : List Body}

def Wraps (inner outer : FrameKind) : Prop := outer = .wrapper → ∃ c, inner = .container c

theorem wraps (layout : Layout items inside bodies) : (bodies.map Body.kind).IsChain Wraps := by
  induction layout with
  | root written => exact .singleton _
  | @plain o _ _ _ _ _ outer bare children ih => exact .cons_cons (fun _ => ⟨o.kind, rfl⟩) ih
  | @wrapped o inside kind _ _ _ outer annotated children ih =>
    obtain ⟨bytes, rest, shape⟩ := outer.shape
    have plain : kind ≠ .wrapper := by
      rw [(Body.mk.inj (List.cons.inj shape).1).1]
      exact Represents.topKindPlain inside
    exact .cons_cons (fun _ => ⟨o.kind, rfl⟩) (.cons_cons (fun wrapper => absurd wrapper plain) ih)

theorem rooted (layout : Layout items inside bodies) :
    ∃ inner, bodies.map Body.kind = inner ++ [.datagram] ∧ ∀ kind ∈ inner, kind ≠ .datagram := by
  induction layout with
  | root written => exact ⟨[], rfl, nofun⟩
  | @plain o _ _ _ _ _ outer bare children ih =>
    obtain ⟨inner, kinds, proper⟩ := ih
    refine ⟨.container o.kind :: inner, congrArg (FrameKind.container o.kind :: ·) kinds, ?_⟩
    exact List.forall_mem_cons.mpr ⟨nofun, proper⟩
  | @wrapped o _ _ _ _ _ outer annotated children ih =>
    obtain ⟨inner, kinds, proper⟩ := ih
    refine ⟨.container o.kind :: .wrapper :: inner,
      congrArg (FrameKind.container o.kind :: FrameKind.wrapper :: ·) kinds, ?_⟩
    exact List.forall_mem_cons.mpr ⟨nofun, List.forall_mem_cons.mpr ⟨nofun, proper⟩⟩

end Layout

namespace Draft

def Named (d : Draft) : Prop := d.field.isSome → d.inStruct

variable {d : Draft}

theorem guardedNamed {act : Draft → Except IonError Draft} (named : d.Named)
    (acts : ∀ next, act d = .ok next → next.Named) : (Reply.ofCall (guarded act) d).2.Named := by
  by_cases poisoned : d.poisoned
  · simp only [Reply.ofCall, guarded, if_pos poisoned]
    exact named
  · cases done : act d with
    | ok next =>
      simp only [Reply.ofCall, guarded, if_neg poisoned, done]
      exact acts next done
    | error e =>
      simp only [Reply.ofCall, guarded, if_neg poisoned, done]
      exact named

theorem unnamed {next : Draft} (bare : next.field = none) : next.Named := by
  intro pending
  rw [bare] at pending
  contradiction

theorem addField (d : Draft) (t : Tree) : (d.add t).field = d.field := by
  unfold add
  split <;> rfl

theorem startNamed {next : Draft → Draft} (clears : ∀ d, (next d).field = none) {d d' : Draft}
    (starts : startValue next d = .ok d') : d'.Named := by
  unfold startValue at starts
  split at starts
  · contradiction
  · cases starts
    exact unnamed (clears d)

theorem flushableNamed (f : Draft → Draft) (keeps : (f d).Named) (next : Draft)
    (done : (d.flushable.map fun _ => f d) = .ok next) : next.Named := by
  cases ready : d.flushable with
  | ok _ =>
    rw [ready] at done
    cases done
    exact keeps
  | error e =>
    rw [ready] at done
    contradiction

theorem flushNamed (named : d.Named) (sink : Sink) : (d.perform (.flush sink)).2.Named := by
  have checked : (Reply.ofCall checkFlushable d).2.Named :=
    guardedNamed named (flushableNamed (fun d => d) named)
  unfold Reply.ofCall at checked
  simp only [perform, Reply.ofFlush, flush]
  cases ran : checkFlushable d with
  | error e d' =>
    rw [ran] at checked
    exact checked
  | ok _ d' =>
    rw [ran] at checked
    dsimp only at checked ⊢
    cases Item.encodeAll? d'.items with
    | error e => exact checked
    | ok bytes =>
      dsimp only
      cases Sink.write bytes sink with
      | ok _ after => exact unnamed rfl
      | error e after => exact checked

theorem performNamed (named : d.Named) (request : SidRequest) : (d.perform request).2.Named := by
  cases request with
  | setField sid =>
    refine guardedNamed named fun next done => ?_
    split at done
    · rename_i inside
      cases done
      exact fun _ => inside
    · contradiction
  | annotate sid =>
    refine guardedNamed named fun next done => ?_
    split at done
    · cases done
      exact named
    · contradiction
  | setAnnotations sids =>
    refine guardedNamed named fun next done => ?_
    split at done
    · cases done
      exact named
    · contradiction
  | clearAnnotations => exact named
  | stepIn type =>
    refine guardedNamed named fun next done => ?_
    split at done
    · exact startNamed (fun _ => rfl) done
    · contradiction
  | stepOut =>
    refine guardedNamed named fun next done => ?_
    split at done
    · contradiction
    · rename_i bare
      split at done
      · contradiction
      · split at done
        · contradiction
        · cases done
          exact unnamed ((addField _ _).trans (by simpa using bare))
  | write a =>
    simp only [perform, write]
    cases a.encode? with
    | error e => exact named
    | ok data => exact guardedNamed named fun next done => startNamed (fun d => addField _ _) done
  | writeVersionMarker =>
    exact guardedNamed named
      (flushableNamed (fun d => { d with items := d.items ++ [.versionMarker] }) named)
  | checkFlushable => exact guardedNamed named (flushableNamed (fun d => d) named)
  | flush sink => exact flushNamed named sink
  | reset => exact unnamed rfl

theorem afterNamed (named : d.Named) (requests : List SidRequest) :
    (Calls.after perform d requests).Named := by
  induction requests generalizing d with
  | nil => exact named
  | cons request rest ih => exact ih (performNamed named request)

end Draft

theorem Frame.totalSum (frames : List Frame) : total frames = (frames.map Frame.length).sum := by
  induction frames with
  | nil => rfl
  | cons f rest ih => rw [total, List.map_cons, List.sum_cons, ih]

theorem Streak.bytesWeight {s : Streak} (sound : s.Sound) : s.bytes.length = s.weight := by
  have length := Pool.listLength (finishSound sound) fun g mem => (finishSettled sound g mem).toInside
  rw [finishBytes, finishTotal] at length
  exact length

namespace SegmentBuffer

def weight : SegmentBuffer → Nat
  | idle _ => 0
  | writing streak => streak.weight

def recorded : SegmentBuffer → SegmentList
  | idle _ => []
  | writing streak => streak.target

end SegmentBuffer

namespace SlotWriter

def weights (s : SlotWriter) : List Nat :=
  (s.stack.opened.dropLast.map fun p => p.segments.total) ++ [s.data.weight]

def segments (s : SlotWriter) : SegmentList :=
  s.stack.slots.flatMap ParkedFrame.segments ++ s.headers ++ s.data.recorded

structure Stacked (s : SlotWriter) : Prop where
  streak : s.data.inStreak = true
  root : ∃ outermost inner, s.frames = outermost :: inner ∧ outermost.kind = .datagram ∧
    ∀ f ∈ inner, f.kind ≠ .datagram
  top : ∀ f, s.frames.getLast? = some f → f.kind ≠ .wrapper
  wrappers : s.frames.IsChain fun outer inner => outer.kind = .wrapper → ∃ c, inner.kind = .container c
  named : s.field.isSome → s.inStruct
  lengths : s.frames.map Frame.length = s.weights
  reusable : ∀ p ∈ s.stack.reusable, p.segments = []
  headers : s.headers = []
  apart : s.segments.Pairwise Segment.Apart
  buffered : s.bufferedLength = s.weights.sum
  flushed : ∀ {sink count after s'}, s.perform? (.flush sink) = some (.flushed count after, s') →
    count = s.bufferedLength

variable {s : SlotWriter} {w : SidWriter} {d : Draft}

theorem Stores.lengths (stores : s.Stores w) (sound : w.Sound) : s.frames.map Frame.length = s.weights := by
  have frames := stores.frames
  obtain ⟨⟨free, rfl, -⟩, -⟩ := stores
  have top : w.top.length = w.out.weight := sound.top.trans (Streak.bytesWeight sound.out)
  have parked : w.below.map (fun p => p.frame.length) = w.below.map fun p => p.segments.total :=
    List.map_congr_left sound.lengths
  have weights : (storing w free).weights = w.below.reverse.map (fun p => p.segments.total) ++ [w.out.weight] := by
    rw [SlotWriter.weights, storingOpened, List.dropLast_concat]
    rfl
  rw [frames, weights, List.map_reverse, List.map_reverse, ← parked, ← top]
  simp [SidWriter.frames, Function.comp_def]

theorem Stores.apart (stores : s.Stores w) (laid : w.Laid) : s.segments.Pairwise Segment.Apart := by
  obtain ⟨⟨free, rfl, spare⟩, -⟩ := stores
  have unused : free.flatMap ParkedFrame.segments = [] := by
    rw [List.flatMap_eq_nil_iff]
    intro p mem
    exact laid.spare p.segments (by rw [← spare]; exact List.mem_map_of_mem mem)
  have all : (storing w free).segments = w.below.reverse.flatMap ParkedFrame.segments ++ w.out.target := by
    simp [SlotWriter.segments, storing, FrameSlots.of, SegmentBuffer.recorded, unused]
  rw [all]
  refine laid.segments.apart.perm (List.Perm.append_right _ ?_) fun apart => apart.symm
  exact (List.reverse_perm _).symm.flatMap_right _

theorem Stores.bufferedLength (stores : s.Stores w) : s.bufferedLength = w.bufferedLength := by
  rw [SlotWriter.bufferedLength, SidWriter.bufferedLength, stores.frames, Frame.totalSum, Frame.totalSum,
    List.map_reverse, List.sum_reverse]

theorem Stores.flushed (stores : s.Stores w) (sound : w.Sound) {sink after : Sink} {count : Nat}
    {s' : SlotWriter} (sent : s.perform? (.flush sink) = some (.flushed count after, s')) :
    count = s.bufferedLength := by
  obtain ⟨_, answered, -⟩ := stores.performs (.flush sink)
  rw [sent] at answered
  have replied := (Prod.mk.inj (Option.some.inj answered)).1
  obtain ⟨closed, count⟩ := SidWriter.flushCounts replied.symm
  rw [stores.bufferedLength, SidWriter.bufferedLength, SidWriter.frames, closed, count, ← sound.top]
  rfl

theorem Stores.kinds (stores : s.Stores w) : (s.frames.map Frame.kind).reverse = w.bodies.map Body.kind := by
  rw [stores.frames, List.map_reverse, List.reverse_reverse]
  simp [SidWriter.frames, SidWriter.bodies]

theorem Stores.stacked (stores : s.Stores w) (same : Represents w d) (laid : w.Laid) (named : d.Named) :
    s.Stacked := by
  have kinds := stores.kinds
  have lengths := stores.lengths same.sound
  constructor
  case streak =>
    obtain ⟨⟨free, rfl, -⟩, -⟩ := stores
    rfl
  case root =>
    obtain ⟨inner, rooted, proper⟩ := same.layout.rooted
    rw [rooted, List.reverse_eq_iff, List.reverse_append] at kinds
    obtain ⟨outermost, rest, frames, root, others⟩ := List.map_eq_cons_iff.mp kinds
    have inside : rest.map Frame.kind = inner.reverse := others
    refine ⟨outermost, rest, frames, root, fun f mem => proper f.kind ?_⟩
    rw [← List.mem_reverse, ← inside]
    exact List.mem_map_of_mem mem
  case top =>
    intro f last
    rw [stores.frames, List.getLast?_reverse] at last
    cases last
    rw [same.top]
    exact Represents.topKindPlain d.inside
  case wrappers =>
    have wraps := same.layout.wraps
    rw [← kinds, List.isChain_reverse, List.isChain_map] at wraps
    exact wraps
  case named =>
    intro pending
    rw [stores.inStruct, same.inStruct]
    exact named (by rw [← same.field, ← stores.fields.1]; exact pending)
  case lengths => exact lengths
  case reusable =>
    obtain ⟨⟨free, rfl, spare⟩, -⟩ := stores
    intro p mem
    rw [storingReusable] at mem
    exact laid.spare p.segments (by rw [← spare]; exact List.mem_map_of_mem mem)
  case headers =>
    obtain ⟨⟨free, rfl, -⟩, -⟩ := stores
    rfl
  case apart => exact stores.apart laid
  case buffered => rw [SlotWriter.bufferedLength, Frame.totalSum, lengths]
  case flushed => exact fun sent => stores.flushed same.sound sent

end SlotWriter

/-- Whatever was called on a new writer that was not reset, no assertion of the storage failed and its
stack is in order. -/
theorem framesStacked (blockSize : Nat) {requests : List SidRequest} (kept : .reset ∉ requests) :
    ∃ s, (SlotWriter.empty blockSize).after? requests = some s ∧
      s.Stores (Calls.after SidWriter.perform (.empty blockSize) requests) ∧ s.Stacked := by
  obtain ⟨s, ran, stores⟩ := (SlotWriter.emptyStores blockSize).after requests
  have same := (Represents.empty blockSize).afterRequests kept
  have laid := SidWriter.laidStable.after (SidWriter.emptyLaid blockSize) kept
  have named := Draft.afterNamed (d := .empty) (Draft.unnamed rfl) requests
  exact ⟨s, ran, stores, stores.stacked same laid named⟩

theorem stackedInStruct :
    let requests : List SidRequest :=
      [.write (.bool true), .flush (.empty (some 0) false), .stepIn .list, .annotate 10, .stepIn .struct,
        .setField 4]
    .reset ∉ requests ∧ ∃ s, (SlotWriter.empty Pool.defaultBlockSize).after? requests = some s ∧ s.Stacked ∧
      s.field = some 4 ∧
        s.frames = [⟨.datagram, 1⟩, ⟨.container .list, 0⟩, ⟨.wrapper, 2⟩, ⟨.container .struct, 0⟩] := by
  intro requests
  have kept : .reset ∉ requests := by decide
  have shown : ((SlotWriter.empty Pool.defaultBlockSize).after? requests).map (fun s => (s.field, s.frames)) =
      some (some 4,
        [⟨.datagram, 1⟩, ⟨.container .list, 0⟩, ⟨.wrapper, 2⟩, ⟨.container .struct, 0⟩]) := by
    decide +kernel
  obtain ⟨s, ran, -, stacked⟩ := framesStacked Pool.defaultBlockSize kept
  rw [ran] at shown
  obtain ⟨field, frames⟩ := Prod.mk.inj (Option.some.inj shown)
  exact ⟨kept, s, ran, stacked, field, frames⟩

end Ion
