import Ion.SlotWriter
import Ion.Proofs.Congruence

/-! The writer with its storage does what the writer does. No assertion of the storage fails, and a call
that fails did not change anything before it found out. -/
namespace Ion

namespace FrameSlots

theorem modifyNext (outer : List ParkedFrame) (slot : ParkedFrame) (free : List ParkedFrame)
    (f : ParkedFrame → ParkedFrame) :
    (outer ++ slot :: free).modify outer.length f = outer ++ f slot :: free := by
  induction outer with
  | nil => rfl
  | cons p rest ih => exact congrArg (p :: ·) ih

def of (below : List ParkedFrame) (slot : ParkedFrame) (free : List ParkedFrame) : FrameSlots :=
  ⟨below.reverse ++ slot :: free, below.length + 1⟩

variable (below : List ParkedFrame) (slot : ParkedFrame) (free : List ParkedFrame)

theorem topOf : (of below slot free).top = slot := by simp [of, top]

theorem changeTopOf (f : ParkedFrame → ParkedFrame) :
    (of below slot free).changeTop f = of below (f slot) free := by
  have changed := modifyNext below.reverse slot free f
  rw [List.length_reverse] at changed
  simp only [of, changeTop, Nat.add_sub_cancel, changed]

theorem pushOf (kind : FrameKind) :
    (of below slot free).push kind =
      ((free.map ParkedFrame.segments).head?.getD [], of (slot :: below) ⟨⟨kind, 0⟩, []⟩ free.tail) := by
  cases free <;> simp [of, push]

theorem popOf (parent : ParkedFrame) :
    (of (parent :: below) slot free).pop = of below parent (slot :: free) := by
  simp [of, pop]

theorem recycleOf (next : ParkedFrame) :
    (of below slot (next :: free)).recycle = of below slot ({ next with segments := [] } :: free) := by
  have recycled := modifyNext (below.reverse ++ [slot]) next free fun slot => { slot with segments := [] }
  simpa [of, recycle] using recycled

end FrameSlots

namespace SidWriter

def kinds (w : SidWriter) : List FrameKind := w.frames.map Frame.kind

def Rooted (w : SidWriter) : Prop := w.kinds.getLast? = some .datagram

end SidWriter

namespace SlotWriter

def storing (w : SidWriter) (free : List ParkedFrame) : SlotWriter :=
  ⟨.writing w.out, .of w.below ⟨w.top, []⟩ free, [], w.field, w.annotations, w.poisoned⟩

structure Stores (s : SlotWriter) (w : SidWriter) : Prop where
  slots : ∃ free, s = storing w free ∧ free.map ParkedFrame.segments = w.spare
  rooted : w.Rooted

variable {s : SlotWriter} {w : SidWriter} {free : List ParkedFrame}

theorem appendStored (w : SidWriter) (free : List ParkedFrame) (bytes : Bytes) :
    append bytes (storing w free) = .ok () (storing (w.append bytes) free) := by
  have run : append bytes (storing w free) = .ok ()
      { storing w free with
        data := .writing (w.out.write bytes)
        stack := (storing w free).stack.changeTop fun p =>
          { p with frame := { p.frame with length := p.frame.length + bytes.length } } } := rfl
  rw [run]
  simp only [storing, FrameSlots.changeTopOf]
  rfl

theorem getRuns (s : SlotWriter) : (get : Call SlotWriter) s = .ok s s := rfl

theorem modifyRuns (f : SlotWriter → SlotWriter) (s : SlotWriter) :
    (modify f : Call Unit) s = .ok () (f s) := rfl

theorem changeStackRuns (f : FrameSlots → FrameSlots) (s : SlotWriter) :
    changeStack f s = .ok () { s with stack := f s.stack } := rfl

theorem pushFrameStored (kind : FrameKind) (spare : free.map ParkedFrame.segments = w.spare) :
    pushFrame kind (storing w free) = .ok () (storing (w.openFrame kind) free.tail) := by
  simp only [pushFrame, bind, EStateM.bind, wrapup, storing, SegmentBuffer.wrapup, getRuns,
    changeStackRuns, FrameSlots.changeTopOf, FrameSlots.pushOf, spare]
  rfl

theorem collectHeaderRuns (code length : Nat) (pool : Pool) (stack : FrameSlots) (field : Option Nat)
    (annotations : List Nat) (poisoned : Bool) :
    collectHeader code length ⟨.idle pool, stack, [], field, annotations, poisoned⟩ =
      .ok ((Wire.header code length).length, ((Streak.start pool []).write (Wire.header code length)).finish.1)
        ⟨.idle ((Streak.start pool []).write (Wire.header code length)).finish.2, stack, [], field,
          annotations, poisoned⟩ := rfl

theorem popFrameStored {parent : ParkedFrame} {outer : List ParkedFrame} {code : Nat}
    (below : w.below = parent :: outer) (coded : w.top.kind.code? = some code) :
    popFrame (storing w free) = .ok () (storing w.closeFrame (⟨w.top, []⟩ :: free)) := by
  have several : ¬outer.length + 1 + 1 ≤ 1 := by omega
  have count (slot : ParkedFrame) : (FrameSlots.of (parent :: outer) slot free).count = outer.length + 1 + 1 :=
    rfl
  simp only [popFrame, bind, EStateM.bind, wrapup, storing, below, SegmentBuffer.wrapup, getRuns,
    changeStackRuns, modifyRuns, count, if_neg several, FrameSlots.topOf, FrameSlots.popOf, coded,
    collectHeaderRuns, FrameSlots.changeTopOf, FrameSlots.recycleOf, SidWriter.closeFrame]
  rfl

theorem clearStored (spare : free.map ParkedFrame.segments = w.spare) (rooted : w.Rooted) :
    ∃ free', (FrameSlots.of w.below ⟨w.top, []⟩ free).clear = .of [] ⟨SidWriter.rootFrame, []⟩ free' ∧
      free'.map ParkedFrame.segments = w.abandoned := by
  have emptied (frame : Frame) (root : frame.kind = .datagram) :
      ({ frame with length := 0 } : Frame) = SidWriter.rootFrame := by
    rw [root]
    rfl
  rcases List.eq_nil_or_concat w.below with alone | ⟨inner, root, several⟩
  · have kind : w.top.kind = .datagram := by
      simpa [SidWriter.Rooted, SidWriter.kinds, SidWriter.frames, alone] using rooted
    refine ⟨free, ?_, ?_⟩
    · simp [FrameSlots.of, FrameSlots.clear, alone, emptied _ kind]
    · rw [SidWriter.abandoned, if_pos alone, spare]
  · have kind : root.frame.kind = .datagram := by
      simpa [SidWriter.Rooted, SidWriter.kinds, SidWriter.frames, several, List.getLast?_cons] using rooted
    refine ⟨inner.reverse ++ ⟨w.top, []⟩ :: free, ?_, ?_⟩
    · simp [FrameSlots.of, FrameSlots.clear, several, emptied _ kind]
    · have nonempty : w.below ≠ [] := by simp [several]
      rw [SidWriter.abandoned, if_neg nonempty, several]
      simp [spare]

theorem restartStored (w : SidWriter) (pool : Pool) (free : List ParkedFrame)
    (same : pool.reset = w.out.pool.reset) (spare : free.map ParkedFrame.segments = w.spare)
    (rooted : w.Rooted) :
    ∃ s', restart { storing w free with data := .idle pool } = .ok () s' ∧ s'.Stores w.restart := by
  obtain ⟨free', cleared, left⟩ := clearStored spare rooted
  refine ⟨storing w.restart free', ?_, ⟨⟨free', rfl, left⟩, rfl⟩⟩
  simp only [restart, bind, EStateM.bind, modifyRuns, storing, cleared, SegmentBuffer.reset,
    SegmentBuffer.pool, same]
  rfl

def Does (call : Call Unit) (g : SidWriter → SidWriter) : Prop :=
  ∀ s w, s.Stores w → ∃ s', call s = .ok () s' ∧ s'.Stores (g w)

theorem Does.bind {one two : Call Unit} {g h : SidWriter → SidWriter} (first : Does one g)
    (second : Does two h) : Does (do one; two) fun w => h (g w) := by
  intro s w stores
  obtain ⟨middle, ran, between⟩ := first s w stores
  obtain ⟨s', ran', after⟩ := second _ _ between
  refine ⟨s', ?_, after⟩
  simp only [Bind.bind, EStateM.bind, ran, ran']

theorem doesAppend (bytes : Bytes) : Does (append bytes) (·.append bytes) := by
  rintro s w ⟨⟨free, rfl, spare⟩, rooted⟩
  exact ⟨_, appendStored w free bytes, ⟨free, rfl, spare⟩, rooted⟩

theorem doesPush (kind : FrameKind) : Does (pushFrame kind) (·.openFrame kind) := by
  rintro s w ⟨⟨free, rfl, spare⟩, rooted⟩
  refine ⟨_, pushFrameStored kind spare, ⟨free.tail, rfl, ?_⟩, ?_⟩
  · simp only [SidWriter.openFrame, ← spare, List.map_tail]
  · exact rooted

theorem Stores.outside (stores : s.Stores w) {code : Nat} (coded : w.top.kind.code? = some code) :
    w.below ≠ [] := by
  intro nothing
  have rooted := stores.rooted
  simp only [SidWriter.Rooted, SidWriter.kinds, SidWriter.frames, nothing, List.map_nil, List.map_cons,
    List.getLast?_singleton, Option.some.injEq] at rooted
  rw [rooted] at coded
  contradiction

theorem Stores.pops (stores : s.Stores w) {code : Nat} (coded : w.top.kind.code? = some code) :
    ∃ s', popFrame s = .ok () s' ∧ s'.Stores w.closeFrame := by
  have several := stores.outside coded
  obtain ⟨⟨free, rfl, spare⟩, rooted⟩ := stores
  obtain ⟨parent, outer, below⟩ := List.exists_cons_of_ne_nil several
  refine ⟨_, popFrameStored below coded, ⟨_, rfl, ?_⟩, ?_⟩
  · simp only [SidWriter.closeFrame, below, coded, List.map_cons, spare]
  · simpa [SidWriter.Rooted, SidWriter.kinds, SidWriter.frames, SidWriter.closeFrame, below, coded]
      using rooted

theorem Stores.top (stores : s.Stores w) : s.stack.top = ⟨w.top, []⟩ := by
  obtain ⟨⟨free, rfl, -⟩, -⟩ := stores
  exact FrameSlots.topOf _ _ _

theorem doesClose : Does closeWrapper SidWriter.closeWrapper := by
  intro s w stores
  simp only [closeWrapper, SidWriter.closeWrapper, bind, EStateM.bind, getRuns, stores.top]
  by_cases wraps : w.top.kind = .wrapper
  · rw [if_pos wraps, if_pos wraps]
    exact stores.pops (by rw [wraps]; rfl)
  · rw [if_neg wraps, if_neg wraps]
    exact ⟨s, rfl, stores⟩

theorem Stores.fields (stores : s.Stores w) :
    s.field = w.field ∧ s.annotations = w.annotations ∧ s.poisoned = w.poisoned := by
  obtain ⟨⟨free, rfl, -⟩, -⟩ := stores
  exact ⟨rfl, rfl, rfl⟩

theorem Stores.inStruct (stores : s.Stores w) : s.inStruct = w.inStruct := by
  rw [SlotWriter.inStruct, stores.top, SidWriter.inStruct]

theorem storingOpened (w : SidWriter) (free : List ParkedFrame) :
    (storing w free).stack.opened = w.below.reverse ++ [⟨w.top, []⟩] := by
  have taken : (w.below.reverse ++ ⟨w.top, []⟩ :: free).take (w.below.length + 1) =
      w.below.reverse ++ [⟨w.top, []⟩] := by
    rw [List.take_append, List.length_reverse, List.take_of_length_le (by simp)]
    simp
  exact taken

theorem storingReusable (w : SidWriter) (free : List ParkedFrame) :
    (storing w free).stack.reusable = free := by
  simp [FrameSlots.reusable, storing, FrameSlots.of, List.drop_append]

theorem Stores.frames (stores : s.Stores w) : s.frames = w.frames.reverse := by
  obtain ⟨⟨free, rfl, -⟩, -⟩ := stores
  rw [SlotWriter.frames, storingOpened, SidWriter.frames]
  simp

theorem Stores.depth (stores : s.Stores w) : s.depth = w.depth := by
  rw [SlotWriter.depth, stores.frames, List.filter_reverse, List.length_reverse, SidWriter.depth]

theorem Stores.several (stores : s.Stores w) : 1 < s.stack.count ↔ w.below ≠ [] := by
  obtain ⟨⟨free, rfl, -⟩, -⟩ := stores
  rw [← List.length_pos_iff]
  exact Nat.succ_lt_succ_iff

theorem doesName : Does writeName SidWriter.named := by
  rintro s w ⟨⟨free, rfl, spare⟩, rooted⟩
  have taken : (modifyGet fun s => (s.field, { s with field := none }) : Call (Option Nat))
      (storing w free) = .ok w.field (storing { w with field := none } free) := rfl
  have cleared : (storing { w with field := none } free).Stores { w with field := none } :=
    ⟨⟨free, rfl, spare⟩, rooted⟩
  simp only [writeName, bind, EStateM.bind, taken, SidWriter.named]
  cases pending : w.field with
  | none =>
    have same : { w with field := none } = w := by rw [← pending]
    rw [same] at cleared ⊢
    exact ⟨_, rfl, cleared⟩
  | some sid => exact doesAppend _ _ _ cleared

def wrapped (w : SidWriter) : SidWriter :=
  if w.annotations = [] then w
  else { (w.openFrame .wrapper).append (Tree.annotationBytes w.annotations) with annotations := [] }

theorem doesClear : Does (modify clearAnnotations) SidWriter.clearAnnotations := by
  rintro s w ⟨⟨free, rfl, spare⟩, rooted⟩
  exact ⟨_, rfl, ⟨free, rfl, spare⟩, rooted⟩

theorem doesWrapper : Does openWrapper wrapped := by
  intro s w stores
  simp only [openWrapper, bind, EStateM.bind, getRuns, stores.fields.2.1, wrapped]
  by_cases bare : w.annotations = []
  · rw [bare]
    exact ⟨s, rfl, stores⟩
  · have annotated : (!w.annotations.isEmpty) = true := by simp [bare]
    rw [if_pos annotated, if_neg bare]
    exact Does.bind (doesPush .wrapper)
      (Does.bind (doesAppend (Tree.annotationBytes w.annotations)) doesClear) s w stores

def Attempts (s : SlotWriter) : EStateM.Result Stop SlotWriter Unit → Except IonError SidWriter → Prop
  | .ok _ s', .ok w => s'.Stores w
  | .error (.failed e) s', .error f => e = f ∧ s' = s
  | _, _ => False

theorem Attempts.map {call next : Call Unit} {plain : Except IonError SidWriter}
    {g : SidWriter → SidWriter} (tries : Attempts s (call s) plain) (does : Does next g) :
    Attempts s ((do call; next) s) (plain.map g) := by
  simp only [bind, EStateM.bind]
  cases ran : call s with
  | ok _ s' =>
    rw [ran] at tries
    cases plain with
    | ok w =>
      obtain ⟨last, ends, stores⟩ := does _ _ tries
      simp only [ends, Except.map]
      exact stores
    | error f => exact tries.elim
  | error stop s' =>
    rw [ran] at tries
    cases stop with
    | broken => exact tries.elim
    | failed e =>
      cases plain with
      | ok w => exact tries.elim
      | error f => exact tries

theorem Attempts.require {met : Prop} [Decidable met] {e : IonError} {next : Call Unit}
    {plain : Except IonError SidWriter} (tries : met → Attempts s (next s) plain) :
    Attempts s ((do require met e; next) s) (if met then plain else .error e) := by
  by_cases held : met
  · have passes : (SlotWriter.require met e : Call Unit) s = .ok () s := by
      rw [SlotWriter.require, if_pos held]
      rfl
    simp only [bind, EStateM.bind, passes, if_pos held]
    exact tries held
  · have stops : (SlotWriter.require met e : Call Unit) s = .error (.failed e) s := by
      rw [SlotWriter.require, if_neg held]
      rfl
    simp only [bind, EStateM.bind, stops, if_neg held]
    exact ⟨rfl, rfl⟩

theorem Attempts.does {call : Call Unit} {g : SidWriter → SidWriter} {w' : SidWriter}
    (does : Does call g) (stores : s.Stores w) (same : g w = w') : Attempts s (call s) (.ok w') := by
  obtain ⟨s', ran, after⟩ := does s w stores
  rw [ran, ← same]
  exact after

theorem Stores.opensValue (stores : s.Stores w) : Attempts s (openValue s) w.openValue := by
  have planned : w.openValue =
      if ¬(w.inStruct ∧ w.field = none) then .ok (wrapped w.named) else .error .fieldNameMissing := by
    rw [SidWriter.openValueNamed, wrapped]
    by_cases missing : w.inStruct ∧ w.field = none
    · rw [if_pos missing, if_neg (not_not_intro missing)]
    · rw [if_neg missing, if_pos missing]
      split <;> rfl
  have does : Does (do writeName; openWrapper) fun w => wrapped w.named := Does.bind doesName doesWrapper
  rw [planned, ← stores.inStruct, ← stores.fields.1]
  exact Attempts.require fun _ => .does does stores rfl

def Answers (related : σ → τ → Prop) : EStateM.Result Stop σ α → EStateM.Result IonError τ α → Prop
  | .ok a s, .ok b t => a = b ∧ related s t
  | .error (.failed e) s, .error f t => e = f ∧ related s t
  | _, _ => False

theorem Answers.ends {related : σ → τ → Prop} {r : EStateM.Result Stop σ α}
    {q : EStateM.Result IonError τ α} (answers : Answers related r q) :
    (∃ a s t, r = .ok a s ∧ q = .ok a t ∧ related s t) ∨
      ∃ e s t, r = .error (.failed e) s ∧ q = .error e t ∧ related s t := by
  cases r with
  | ok a s =>
    cases q with
    | ok b t =>
      obtain ⟨rfl, same⟩ := answers
      exact .inl ⟨a, s, t, rfl, rfl, same⟩
    | error f t => exact answers.elim
  | error stop s =>
    cases q with
    | ok b t => cases stop <;> exact answers.elim
    | error f t =>
      cases stop with
      | broken => exact answers.elim
      | failed e =>
        obtain ⟨rfl, same⟩ := answers
        exact .inr ⟨e, s, t, rfl, rfl, same⟩

theorem guardedRuns {act : Call α} {a : α} {s' : SlotWriter} (healthy : s.poisoned = false)
    (ran : act s = .ok a s') : guarded act s = .ok a s' := by
  simp [guarded, healthy, ran]

theorem Attempts.guarded {act : Call Unit} {plain : SidWriter → Except IonError SidWriter}
    (stores : s.Stores w) (tries : Attempts s (act s) (plain w)) :
    Answers Stores (guarded act s) (SidWriter.guarded plain w) := by
  unfold SlotWriter.guarded SidWriter.guarded
  rw [stores.fields.2.2]
  split
  · exact ⟨rfl, stores⟩
  · rename_i healthy
    cases ran : act s with
    | ok _ s' =>
      rw [ran] at tries
      cases planned : plain w with
      | ok w' =>
        rw [planned] at tries
        exact ⟨rfl, tries⟩
      | error f =>
        rw [planned] at tries
        exact tries.elim
    | error stop s' =>
      rw [ran] at tries
      cases planned : plain w with
      | ok w' =>
        rw [planned] at tries
        cases stop <;> exact tries.elim
      | error f =>
        rw [planned] at tries
        cases stop with
        | broken => exact tries.elim
        | failed e =>
          obtain ⟨rfl, rfl⟩ := tries
          obtain ⟨⟨free, rfl, spare⟩, rooted⟩ := stores
          have marked : w.poisoned = false := Bool.eq_false_iff.mpr healthy
          dsimp only
          cases structural : e.isStructural with
          | true => exact ⟨rfl, ⟨free, rfl, spare⟩, rooted⟩
          | false =>
            have same : { w with poisoned := false } = w := by rw [← marked]
            rw [same]
            exact ⟨rfl, ⟨free, rfl, spare⟩, rooted⟩

section Calls

variable (stores : s.Stores w)

include stores

theorem Stores.setField (sid : Nat) : Answers Stores (setField sid s) (SidWriter.setField sid w) := by
  refine Attempts.guarded stores ?_
  rw [← stores.inStruct]
  refine Attempts.require fun _ => ?_
  obtain ⟨⟨free, rfl, spare⟩, rooted⟩ := stores
  exact ⟨⟨free, rfl, spare⟩, rooted⟩

theorem Stores.annotate (sid : Nat) :
    Answers Stores (SlotWriter.addAnnotation sid s) (SidWriter.addAnnotation sid w) := by
  refine Attempts.guarded stores ?_
  rw [← stores.fields.2.1]
  refine Attempts.require fun _ => ?_
  obtain ⟨⟨free, rfl, spare⟩, rooted⟩ := stores
  exact ⟨⟨free, rfl, spare⟩, rooted⟩

theorem Stores.setAnnotations (sids : List Nat) :
    Answers Stores (SlotWriter.setAnnotations sids s) (SidWriter.setAnnotations sids w) := by
  refine Attempts.guarded stores (Attempts.require fun _ => ?_)
  obtain ⟨⟨free, rfl, spare⟩, rooted⟩ := stores
  exact ⟨⟨free, rfl, spare⟩, rooted⟩

theorem Stores.stepIn (type : ValueType) :
    Answers Stores (SlotWriter.stepIn type s) (SidWriter.stepIn type w) := by
  refine Attempts.guarded stores ?_
  cases type.container? with
  | none => exact ⟨rfl, rfl⟩
  | some c => exact stores.opensValue.map (doesPush (.container c))

theorem Stores.stepOut : Answers Stores (SlotWriter.stepOut s) (SidWriter.stepOut w) := by
  refine Attempts.guarded stores ?_
  have planned (kind : FrameKind) :
      (if w.field.isSome then .error .fieldNamePending
        else if w.annotations ≠ [] then .error .annotationsPending
        else if kind.isClosable then .ok w.closeFrame.closeWrapper
        else .error (.notClosable kind) : Except IonError SidWriter) =
      if w.field = none then
        if w.annotations = [] then
          if kind.isClosable then .ok w.closeFrame.closeWrapper else .error (.notClosable kind)
        else .error .annotationsPending
      else .error .fieldNamePending := by
    cases w.field <;> cases w.annotations <;> rfl
  have kind : s.stack.top.frame.kind = w.top.kind := by rw [stores.top]
  rw [planned, ← stores.fields.1, ← stores.fields.2.1, ← kind]
  refine Attempts.require fun _ => Attempts.require fun _ => Attempts.require fun closable => ?_
  rw [kind] at closable
  obtain ⟨c, container⟩ : ∃ c, w.top.kind = .container c := by
    cases isKind : w.top.kind with
    | container c => exact ⟨c, rfl⟩
    | _ =>
      rw [isKind] at closable
      contradiction
  obtain ⟨s', ran, popped⟩ := stores.pops (by rw [container]; rfl)
  obtain ⟨last, closes, stored⟩ := doesClose _ _ popped
  simp only [bind, EStateM.bind, ran, closes]
  exact stored

theorem Stores.write (a : Atom) : Answers Stores (SlotWriter.write a s) (SidWriter.write a w) := by
  unfold SlotWriter.write SidWriter.write
  cases a.encode? with
  | error e => exact ⟨rfl, stores⟩
  | ok data =>
    have does : Does (do append data; closeWrapper) fun w => (w.append data).closeWrapper :=
      Does.bind (doesAppend data) doesClose
    exact Attempts.guarded stores (stores.opensValue.map does)

theorem Stores.flushable :
    flushable s = match w.flushable with
      | .ok _ => .ok () s
      | .error e => .error (.failed e) s := by
  have alone : s.stack.count ≤ 1 ↔ w.below = [] := by
    rw [← Nat.not_lt, stores.several, Classical.not_not]
  simp only [SlotWriter.flushable, SidWriter.flushable, SlotWriter.require, bind, EStateM.bind, getRuns,
    stores.depth, stores.fields.2.1, alone]
  by_cases closed : w.below = [] <;> by_cases bare : w.annotations = [] <;> simp [closed, bare] <;> rfl

theorem Stores.checkFlushable :
    Answers Stores (SlotWriter.checkFlushable s) (SidWriter.checkFlushable w) := by
  refine Attempts.guarded stores ?_
  rw [stores.flushable]
  cases w.flushable with
  | ok _ => exact stores
  | error e => exact ⟨rfl, rfl⟩

theorem Stores.writeVersionMarker :
    Answers Stores (SlotWriter.writeVersionMarker s) (SidWriter.writeVersionMarker w) := by
  refine Attempts.guarded stores ?_
  simp only [bind, EStateM.bind, stores.flushable]
  cases w.flushable with
  | ok _ => exact .does (doesAppend versionMarker) stores rfl
  | error e => exact ⟨rfl, rfl⟩

theorem Stores.drains (sink : Sink) :
    match w.out.finish.2.writeTo w.out.finish.1 sink with
    | .ok n after => ∃ s', drain sink s = .ok (.ok n, after) s' ∧ s'.Stores w.restart
    | .error e after => ∃ s', drain sink s = .ok (.error e, after) s' ∧ s'.Stores w.resumed := by
  obtain ⟨⟨free, rfl, spare⟩, rooted⟩ := stores
  have taken : wrapup (storing w free) =
      .ok w.out.finish.1 { storing w free with data := .idle w.out.finish.2 } := rfl
  have pool : ({ storing w free with data := .idle w.out.finish.2 } : SlotWriter).data.pool =
      w.out.finish.2 := rfl
  cases sent : w.out.finish.2.writeTo w.out.finish.1 sink with
  | ok n after =>
    obtain ⟨s', restarts, stored⟩ := restartStored w w.out.finish.2 free rfl spare rooted
    refine ⟨s', ?_, stored⟩
    simp only [drain, bind, EStateM.bind, taken, getRuns, pool, sent, restarts]
    rfl
  | error e after =>
    refine ⟨storing w.resumed free, ?_, ⟨⟨free, rfl, spare⟩, rooted⟩⟩
    simp only [drain, bind, EStateM.bind, taken, getRuns, pool, sent]
    rfl

theorem Stores.flush (sink : Sink) :
    Answers (SameSink Stores) (SlotWriter.flush (s, sink)) (SidWriter.flush (w, sink)) := by
  unfold SlotWriter.flush SidWriter.flush
  simp only [bind, EStateM.bind]
  rcases stores.checkFlushable.ends with
    ⟨_, s', w', left, right, stored⟩ | ⟨e, s', w', left, right, stored⟩
  · have healthy : s'.poisoned = false := by
      obtain ⟨rfl, -, -, healthy⟩ := SidWriter.checkedReady right
      exact stored.fields.2.2.trans healthy
    have drains := stored.drains sink
    rw [left, right]
    dsimp only
    cases sent : w'.out.finish.2.writeTo w'.out.finish.1 sink with
    | ok n after =>
      rw [sent] at drains
      obtain ⟨last, ran, after⟩ := drains
      rw [guardedRuns healthy ran]
      exact ⟨rfl, after, rfl⟩
    | error e after =>
      rw [sent] at drains
      obtain ⟨last, ran, after⟩ := drains
      rw [guardedRuns healthy ran]
      exact ⟨rfl, after, rfl⟩
  · rw [left, right]
    exact ⟨rfl, stored, rfl⟩

end Calls

theorem Stores.reset (stores : s.Stores w) : ∃ s', reset s = .ok () s' ∧ s'.Stores w.reset := by
  obtain ⟨⟨free, rfl, spare⟩, rooted⟩ := stores
  have taken : wrapup (storing w free) =
      .ok w.out.finish.1 { storing w free with data := .idle w.out.finish.2 } := rfl
  obtain ⟨s', restarts, ⟨free', rfl, left⟩, rooted'⟩ :=
    restartStored w w.out.finish.2 free rfl spare rooted
  refine ⟨storing w.reset free', ?_, ⟨free', rfl, left⟩, rooted'⟩
  simp only [SlotWriter.reset, bind, EStateM.bind, taken, restarts, modifyRuns]
  rfl

theorem emptyStores (blockSize : Nat) : (SlotWriter.empty blockSize).Stores (.empty blockSize) :=
  ⟨⟨[], rfl, rfl⟩, rfl⟩

def answer? : EStateM.Result Stop SlotWriter Unit → Option (Reply × SlotWriter)
  | .ok _ s => some (.done, s)
  | .error (.failed e) s => some (.failed e, s)
  | .error .broken _ => none

def flushAnswer? : EStateM.Result Stop (SlotWriter × Sink) Nat → Option (Reply × SlotWriter)
  | .ok n (s, sink) => some (.flushed n sink, s)
  | .error (.failed e) (s, sink) => some (.flushFailed e sink, s)
  | .error .broken _ => none

def perform? (s : SlotWriter) : SidRequest → Option (Reply × SlotWriter)
  | .setField sid => answer? (setField sid s)
  | .annotate sid => answer? (SlotWriter.addAnnotation sid s)
  | .setAnnotations sids => answer? (setAnnotations sids s)
  | .clearAnnotations => some (.done, s.clearAnnotations)
  | .stepIn type => answer? (stepIn type s)
  | .stepOut => answer? (stepOut s)
  | .write a => answer? (write a s)
  | .writeVersionMarker => answer? (writeVersionMarker s)
  | .checkFlushable => answer? (checkFlushable s)
  | .flush sink => flushAnswer? (flush (s, sink))
  | .reset => answer? (reset s)

def after? (s : SlotWriter) (requests : List SidRequest) : Option SlotWriter :=
  requests.foldlM (fun s request => (s.perform? request).map Prod.snd) s

theorem Answers.replies {call : EStateM IonError SidWriter Unit} {r : EStateM.Result Stop SlotWriter Unit}
    (answers : Answers Stores r (call w)) :
    ∃ s', answer? r = some ((Reply.ofCall call w).1, s') ∧ s'.Stores (Reply.ofCall call w).2 := by
  unfold Reply.ofCall
  rcases answers.ends with ⟨_, s', w', left, right, stored⟩ | ⟨e, s', w', left, right, stored⟩
  · rw [left, right]
    exact ⟨s', rfl, stored⟩
  · rw [left, right]
    exact ⟨s', rfl, stored⟩

theorem Stores.performs (stores : s.Stores w) (request : SidRequest) :
    ∃ s', s.perform? request = some ((w.perform request).1, s') ∧ s'.Stores (w.perform request).2 := by
  cases request with
  | setField sid => exact (stores.setField sid).replies
  | annotate sid => exact (stores.annotate sid).replies
  | setAnnotations sids => exact (stores.setAnnotations sids).replies
  | clearAnnotations =>
    obtain ⟨⟨free, rfl, spare⟩, rooted⟩ := stores
    exact ⟨_, rfl, ⟨free, rfl, spare⟩, rooted⟩
  | stepIn type => exact (stores.stepIn type).replies
  | stepOut => exact stores.stepOut.replies
  | write a => exact (stores.write a).replies
  | writeVersionMarker => exact stores.writeVersionMarker.replies
  | checkFlushable => exact stores.checkFlushable.replies
  | flush sink =>
    simp only [perform?, SidWriter.perform, Reply.ofFlush]
    rcases (stores.flush sink).ends with
      ⟨n, ⟨s', k⟩, ⟨w', _⟩, left, right, stored, rfl⟩ | ⟨e, ⟨s', k⟩, ⟨w', _⟩, left, right, stored, rfl⟩
    · rw [left, right]
      exact ⟨s', rfl, stored⟩
    · rw [left, right]
      exact ⟨s', rfl, stored⟩
  | reset =>
    obtain ⟨s', ran, stored⟩ := stores.reset
    exact ⟨s', by rw [perform?, ran]; rfl, stored⟩

theorem Stores.after (stores : s.Stores w) (requests : List SidRequest) :
    ∃ s', s.after? requests = some s' ∧ s'.Stores (Calls.after SidWriter.perform w requests) := by
  induction requests generalizing s w with
  | nil => exact ⟨s, rfl, stores⟩
  | cons request rest ih =>
    obtain ⟨middle, first, stored⟩ := stores.performs request
    obtain ⟨last, others, ends⟩ := ih stored
    refine ⟨last, ?_, ends⟩
    simp only [after?, List.foldlM_cons, first, Option.map_some, Option.bind_eq_bind, Option.bind_some]
    exact others

end SlotWriter

end Ion
