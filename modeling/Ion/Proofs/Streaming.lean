import Ion.Proofs.Frames
import Ion.Proofs.Writing

/-! The streaming writer writes what the plain one encodes: lengths patched in afterwards are the
lengths of the encoded bodies, however the bytes were spread over blocks and lists. -/
namespace Ion

inductive Layout (items : List Item) : List OpenContainer → List Body → Prop
  | root {bytes} (written : Bytes.each Item.encode? items = .ok bytes) :
      Layout items [] [⟨.datagram, bytes⟩]
  | plain {o inside kind above below inner}
      (outer : Layout items inside (⟨kind, above⟩ :: below))
      (bare : o.annotations = []) (children : Bytes.each Tree.encode? o.children = .ok inner) :
      Layout items (o :: inside)
        (⟨.container o.kind, inner⟩ :: ⟨kind, above ++ Tree.fieldBytes o.field⟩ :: below)
  | wrapped {o inside kind above below inner}
      (outer : Layout items inside (⟨kind, above⟩ :: below))
      (annotated : o.annotations ≠ []) (children : Bytes.each Tree.encode? o.children = .ok inner) :
      Layout items (o :: inside)
        (⟨.container o.kind, inner⟩ :: ⟨.wrapper, Tree.annotationBytes o.annotations⟩ ::
          ⟨kind, above ++ Tree.fieldBytes o.field⟩ :: below)

def OpenContainer.topKind : List OpenContainer → FrameKind
  | [] => .datagram
  | o :: _ => .container o.kind

namespace Layout

variable {items : List Item} {inside : List OpenContainer} {bodies : List Body}

theorem shape (layout : Layout items inside bodies) :
    ∃ bytes rest, bodies = ⟨OpenContainer.topKind inside, bytes⟩ :: rest := by
  cases layout with
  | root written => exact ⟨_, _, rfl⟩
  | plain outer bare children => exact ⟨_, _, rfl⟩
  | wrapped outer annotated children => exact ⟨_, _, rfl⟩

theorem unique {other : List Body} (one : Layout items inside bodies)
    (two : Layout items inside other) : bodies = other := by
  induction one generalizing other with
  | root written =>
    cases two with
    | root again =>
      rw [written] at again
      rw [Except.ok.inj again]
  | plain outer bare children ih =>
    cases two with
    | plain outer' bare' children' =>
      rw [children] at children'
      have same := ih outer'
      simp only [List.cons.injEq, Body.mk.injEq] at same
      rw [Except.ok.inj children', same.1.1, same.1.2, same.2]
    | wrapped outer' annotated' children' => exact absurd bare annotated'
  | wrapped outer annotated children ih =>
    cases two with
    | plain outer' bare' children' => exact absurd bare' annotated
    | wrapped outer' annotated' children' =>
      rw [children] at children'
      have same := ih outer'
      simp only [List.cons.injEq, Body.mk.injEq] at same
      rw [Except.ok.inj children', same.1.1, same.1.2, same.2]

theorem closable (layout : Layout items inside bodies) :
    (bodies.filter fun b => b.kind.isClosable).length = inside.length := by
  induction layout with
  | root written => rfl
  | @plain _ _ kind _ _ _ outer bare children ih =>
    cases kind <;> simpa [FrameKind.isClosable] using ih
  | @wrapped _ _ kind _ _ _ outer annotated children ih =>
    cases kind <;> simpa [FrameKind.isClosable] using ih

theorem singleton (layout : Layout items inside bodies) : bodies.tail = [] ↔ inside = [] := by
  cases layout <;> simp

end Layout

def Body.place (field : Option Nat) (annotations : List Nat) : List Body → List Body
  | [] => []
  | b :: rest =>
    let named := ⟨b.kind, b.bytes ++ Tree.fieldBytes field⟩ :: rest
    if annotations = [] then named else ⟨.wrapper, Tree.annotationBytes annotations⟩ :: named

theorem Body.placeBare (field : Option Nat) (b : Body) (rest : List Body) :
    place field [] (b :: rest) = ⟨b.kind, b.bytes ++ Tree.fieldBytes field⟩ :: rest := rfl

theorem Body.placeAnnotated (field : Option Nat) {annotations : List Nat} (b : Body)
    (rest : List Body) (annotated : annotations ≠ []) :
    place field annotations (b :: rest) =
      ⟨.wrapper, Tree.annotationBytes annotations⟩ ::
        ⟨b.kind, b.bytes ++ Tree.fieldBytes field⟩ :: rest := by
  simp [place, annotated]

namespace SidWriter

theorem appendRest (w : SidWriter) (data : Bytes) :
    (w.append data).field = w.field ∧ (w.append data).annotations = w.annotations ∧
      (w.append data).poisoned = w.poisoned := ⟨rfl, rfl, rfl⟩

theorem closeFrameRest (w : SidWriter) :
    w.closeFrame.field = w.field ∧ w.closeFrame.annotations = w.annotations ∧
      w.closeFrame.poisoned = w.poisoned := by
  unfold closeFrame
  split <;> exact ⟨rfl, rfl, rfl⟩

theorem closeWrapperRest (w : SidWriter) :
    w.closeWrapper.field = w.field ∧ w.closeWrapper.annotations = w.annotations ∧
      w.closeWrapper.poisoned = w.poisoned := by
  unfold closeWrapper
  split
  · exact w.closeFrameRest
  · exact ⟨rfl, rfl, rfl⟩

theorem Spells.pending {w : SidWriter} {bodies : List Body} (spells : w.Spells bodies)
    (field : Option Nat) (annotations : List Nat) :
    ({ w with field, annotations } : SidWriter).Spells bodies :=
  ⟨⟨spells.sound.out, spells.sound.settled, spells.sound.lengths, spells.sound.top,
    spells.sound.spare⟩, spells.bodies⟩

def named (w : SidWriter) : SidWriter :=
  match w.field with
  | some sid => { w.append (VarUInt.encode sid) with field := none }
  | none => w

theorem openValueNamed (w : SidWriter) :
    w.openValue =
      if w.inStruct ∧ w.field = none then .error .fieldNameMissing
      else if w.named.annotations = [] then .ok w.named
      else .ok { (w.named.openFrame .wrapper).append (Tree.annotationBytes w.named.annotations) with
        annotations := [] } := rfl

theorem namedRest (w : SidWriter) :
    w.named.field = none ∧ w.named.annotations = w.annotations ∧ w.named.poisoned = w.poisoned := by
  unfold named
  split
  · exact ⟨rfl, rfl, rfl⟩
  · rename_i noField
    exact ⟨noField, rfl, rfl⟩

theorem namedSpells {w : SidWriter} {b : Body} {rest : List Body} (spells : w.Spells (b :: rest)) :
    w.named.Spells (⟨b.kind, b.bytes ++ Tree.fieldBytes w.field⟩ :: rest) := by
  unfold named
  split
  · rename_i sid field
    rw [field]
    exact (appendSpells spells (VarUInt.encode sid)).pending none w.annotations
  · rename_i noField
    simpa [noField, Tree.fieldBytes] using spells

theorem openValuePlaces {w : SidWriter} {b : Body} {rest : List Body}
    (spells : w.Spells (b :: rest)) (allowed : ¬(w.inStruct ∧ w.field = none)) :
    ∃ opened, w.openValue = .ok opened ∧
      opened.Spells (Body.place w.field w.annotations (b :: rest)) ∧
      opened.field = none ∧ opened.annotations = [] ∧ opened.poisoned = w.poisoned := by
  have spelled := namedSpells spells
  obtain ⟨noField, annotations, poisoned⟩ := w.namedRest
  rw [openValueNamed, if_neg allowed]
  by_cases bare : w.annotations = []
  · rw [if_pos (annotations.trans bare), bare, Body.placeBare]
    exact ⟨w.named, rfl, spelled, noField, annotations.trans bare, poisoned⟩
  · rw [if_neg (by rw [annotations]; exact bare), Body.placeAnnotated w.field b rest bare]
    have inner := appendSpells (openFrameSpells spelled .wrapper)
      (Tree.annotationBytes w.named.annotations)
    rw [List.nil_append, annotations] at inner
    rw [annotations]
    exact ⟨_, rfl, inner.pending _ [], noField, rfl, poisoned⟩

theorem placedValue {w : SidWriter} {b : Body} {rest : List Body} {field : Option Nat}
    {annotations : List Nat} (spells : w.Spells (Body.place field annotations (b :: rest)))
    (plain : b.kind ≠ .wrapper) (data : Bytes) :
    (w.append data).closeWrapper.Spells
      (⟨b.kind, b.bytes ++ (Tree.fieldBytes field ++ Tree.wrap annotations data)⟩ :: rest) := by
  by_cases bare : annotations = []
  · subst bare
    rw [Body.placeBare] at spells
    have written := appendSpells spells data
    have kind : (w.append data).top.kind = b.kind := (Body.mk.inj (List.cons.inj written.bodies).1).1
    simpa [Tree.wrap] using closeWrapperPlain written (by rw [kind]; exact plain)
  · rw [Body.placeAnnotated field b rest bare] at spells
    have written := closeWrapperSpells (appendSpells spells data)
    rw [Tree.wrapAnnotated data bare]
    simpa using written

end SidWriter

structure Represents (w : SidWriter) (d : Draft) : Prop where
  sound : w.Sound
  layout : Layout d.items d.inside w.bodies
  field : w.field = d.field
  annotations : w.annotations = d.annotations
  poisoned : w.poisoned = d.poisoned

theorem Layout.add {d : Draft} {t : Tree} {b : Body} {rest : List Body} {more : Bytes}
    (layout : Layout d.items d.inside (b :: rest)) (written : t.encode? = .ok more) :
    Layout (d.add t).items (d.add t).inside (⟨b.kind, b.bytes ++ more⟩ :: rest) := by
  obtain ⟨items, inside, field, annotations, poisoned⟩ := d
  cases layout with
  | root before => exact .root (Bytes.eachAdd before written)
  | @plain o inside kind above below inner outer bare children =>
    exact .plain (o := { o with children := o.children ++ [t] }) outer bare
      (Bytes.eachAdd children written)
  | @wrapped o inside kind above below inner outer annotated children =>
    exact .wrapped (o := { o with children := o.children ++ [t] }) outer annotated
      (Bytes.eachAdd children written)

namespace Represents

variable {w : SidWriter} {d : Draft}

theorem empty (blockSize : Nat) : Represents (.empty blockSize) .empty := by
  have spells := SidWriter.emptySpells blockSize
  refine ⟨spells.sound, ?_, rfl, rfl, rfl⟩
  rw [spells.bodies]
  exact .root rfl

theorem top (same : Represents w d) : w.top.kind = OpenContainer.topKind d.inside := by
  obtain ⟨bytes, rest, shape⟩ := same.layout.shape
  exact (Body.mk.inj (List.cons.inj shape).1).1

theorem inStruct (same : Represents w d) : w.inStruct = d.inStruct := by
  rw [SidWriter.inStruct, same.top, Draft.inStruct]
  cases d.inside with
  | nil => rfl
  | cons o rest => cases kind : o.kind <;> simp only [OpenContainer.topKind, kind] <;> rfl

theorem spells (same : Represents w d) : w.Spells w.bodies := ⟨same.sound, rfl⟩

theorem closed (same : Represents w d) : w.below = [] ↔ d.inside = [] := by
  rw [← same.layout.singleton]
  simp [SidWriter.bodies]

theorem depth (same : Represents w d) : w.depth = d.inside.length := by
  rw [← same.layout.closable]
  simp only [SidWriter.depth, SidWriter.frames, SidWriter.bodies, List.filter_cons, List.filter_map,
    Function.comp_def]
  split <;> simp

end Represents

theorem Draft.flushableOk {d : Draft} (ready : d.flushable = .ok ()) :
    d.inside = [] ∧ d.annotations = [] := by
  unfold Draft.flushable at ready
  split at ready
  · contradiction
  · rename_i closed
    split at ready
    · contradiction
    · rename_i bare
      exact ⟨by simpa using closed, by simpa using bare⟩

abbrev Agrees : EStateM.Result IonError SidWriter α → EStateM.Result IonError Draft α → Prop :=
  Alike Represents

namespace Represents

variable {w : SidWriter} {d : Draft}

theorem guarded {act : SidWriter → Except IonError SidWriter} {plain : Draft → Except IonError Draft}
    (same : Represents w d) (follows : Follows Represents (act w) (plain d)) :
    Agrees (SidWriter.guarded act w) (Draft.guarded plain d) := by
  unfold SidWriter.guarded Draft.guarded
  rw [same.poisoned]
  split
  · exact ⟨rfl, same⟩
  · rcases follows.ends with ⟨w', d', left, right, next⟩ | ⟨e, left, right⟩
    · rw [left, right]
      exact ⟨rfl, next⟩
    · rw [left, right]
      exact ⟨rfl, ⟨⟨same.sound.out, same.sound.settled, same.sound.lengths, same.sound.top,
        same.sound.spare⟩, same.layout, same.field, same.annotations, rfl⟩⟩

theorem pending (same : Represents w d) {field name : Option Nat} {annotations sids : List Nat}
    (sameName : field = name) (sameSids : annotations = sids) :
    Represents { w with field, annotations } { d with field := name, annotations := sids } :=
  ⟨(same.spells.pending field annotations).sound, same.layout, sameName, sameSids, same.poisoned⟩

theorem setField (same : Represents w d) (sid : Nat) :
    Agrees (SidWriter.setField sid w) (Draft.setField sid d) := by
  refine same.guarded ?_
  rw [same.inStruct]
  split
  · exact same.pending rfl same.annotations
  · rfl

theorem annotate (same : Represents w d) (sid : Nat) :
    Agrees (SidWriter.addAnnotation sid w) (Draft.addAnnotation sid d) := by
  refine same.guarded ?_
  rw [same.annotations]
  split
  · exact same.pending same.field rfl
  · rfl

theorem setAnnotations (same : Represents w d) (sids : List Nat) :
    Agrees (SidWriter.setAnnotations sids w) (Draft.setAnnotations sids d) := by
  refine same.guarded ?_
  split
  · exact same.pending same.field rfl
  · rfl

theorem clearAnnotations (same : Represents w d) :
    Represents w.clearAnnotations d.clearAnnotations :=
  same.pending same.field rfl

theorem openValue (same : Represents w d) (allowed : ¬(d.inStruct ∧ d.field = none)) :
    ∃ opened, w.openValue = .ok opened ∧
      opened.Spells (Body.place d.field d.annotations w.bodies) ∧
      opened.field = none ∧ opened.annotations = [] ∧ opened.poisoned = d.poisoned := by
  have named : ¬(w.inStruct ∧ w.field = none) := by
    rw [same.inStruct, same.field]
    exact allowed
  obtain ⟨opened, ok, spells, field, annotations, poisoned⟩ :=
    SidWriter.openValuePlaces same.spells named
  rw [same.field, same.annotations] at spells
  exact ⟨opened, ok, spells, field, annotations, poisoned.trans same.poisoned⟩

theorem openValueMissing (same : Represents w d) (missing : d.inStruct ∧ d.field = none) :
    w.openValue = .error .fieldNameMissing := by
  rw [SidWriter.openValueNamed, if_pos (by rw [same.inStruct, same.field]; exact missing)]

theorem stepIn (same : Represents w d) (type : ValueType) :
    Agrees (SidWriter.stepIn type w) (Draft.stepIn type d) := by
  refine same.guarded ?_
  cases type.container? with
  | none => rfl
  | some c =>
    dsimp only [Draft.startValue]
    by_cases missing : d.inStruct ∧ d.field = none
    · rw [same.openValueMissing missing, if_pos missing]
      rfl
    · obtain ⟨opened, ok, spells, field, annotations, poisoned⟩ := same.openValue missing
      rw [ok, if_neg missing]
      have inner := SidWriter.openFrameSpells spells (.container c)
      obtain ⟨bytes, rest, shape⟩ := same.layout.shape
      have layout := same.layout
      refine ⟨inner.sound, ?_, field, annotations, poisoned⟩
      rw [inner.bodies, shape]
      rw [shape] at layout
      by_cases bare : d.annotations = []
      · rw [bare, Body.placeBare]
        exact .plain (o := ⟨d.field, [], c, []⟩) layout rfl rfl
      · rw [Body.placeAnnotated _ _ _ bare]
        exact .wrapped (o := ⟨d.field, d.annotations, c, []⟩) layout bare rfl

theorem topKindPlain (inside : List OpenContainer) : OpenContainer.topKind inside ≠ .wrapper := by
  cases inside <;> simp [OpenContainer.topKind]

theorem closeContainer {items : List Item} {o : OpenContainer} {inside : List OpenContainer}
    (sound : w.Sound) (layout : Layout items (o :: inside) w.bodies) :
    ∃ b rest bytes, Layout items inside (b :: rest) ∧ o.tree.encode? = .ok bytes ∧
      w.closeFrame.closeWrapper.Spells (⟨b.kind, b.bytes ++ bytes⟩ :: rest) := by
  generalize shape : w.bodies = bodies at layout
  cases layout with
  | @plain _ _ kind above below inner outer bare children =>
    have closed := SidWriter.closeFrameSpells ⟨sound, shape⟩ rfl
    have plain : w.closeFrame.top.kind ≠ .wrapper := by
      obtain ⟨bytes, rest, head⟩ := outer.shape
      rw [(Body.mk.inj (List.cons.inj closed.bodies).1).1, (Body.mk.inj (List.cons.inj head).1).1]
      exact topKindPlain inside
    refine ⟨⟨kind, above⟩, below, Tree.fieldBytes o.field ++ Wire.typed o.kind.type.code inner,
      outer, ?_, ?_⟩
    · rw [OpenContainer.tree, Tree.encode?, Tree.encodeAllEach, children]
      simp [bind, Except.bind, pure, Except.pure, bare, Tree.wrap]
    · simpa [List.append_assoc] using SidWriter.closeWrapperPlain closed plain
  | @wrapped _ _ kind above below inner outer annotated children =>
    have closed := SidWriter.closeFrameSpells ⟨sound, shape⟩ rfl
    refine ⟨⟨kind, above⟩, below, Tree.fieldBytes o.field ++
      Wire.typed wrapperCode (Tree.annotationBytes o.annotations ++
        Wire.typed o.kind.type.code inner), outer, ?_, ?_⟩
    · rw [OpenContainer.tree, Tree.encode?, Tree.encodeAllEach, children]
      simp [bind, Except.bind, pure, Except.pure, Tree.wrapAnnotated _ annotated]
    · simpa [List.append_assoc] using SidWriter.closeWrapperSpells closed

theorem stepOut (same : Represents w d) : Agrees (SidWriter.stepOut w) (Draft.stepOut d) := by
  refine same.guarded ?_
  rw [same.field, same.annotations, same.top]
  split
  · rfl
  · split
    · rfl
    · have layout := same.layout
      cases inside : d.inside with
      | nil => rfl
      | cons o rest =>
        rw [inside] at layout
        obtain ⟨b, below, bytes, outer, encoded, spells⟩ := closeContainer same.sound layout
        have grown := Layout.add (d := { d with inside := rest }) outer encoded
        have kept := Draft.addRest { d with inside := rest } o.tree
        have closes := w.closeFrameRest
        have wraps := w.closeFrame.closeWrapperRest
        have closable : (OpenContainer.topKind (o :: rest)).isClosable = true := rfl
        rw [if_pos closable]
        refine ⟨spells.sound, by rw [spells.bodies]; exact grown, ?_, ?_, ?_⟩
        · rw [wraps.1, closes.1, kept.1]
          exact same.field
        · rw [wraps.2.1, closes.2.1, kept.2.1]
          exact same.annotations
        · rw [wraps.2.2, closes.2.2, kept.2.2]
          exact same.poisoned

theorem write (same : Represents w d) (a : Atom) : Agrees (SidWriter.write a w) (Draft.write a d) := by
  unfold SidWriter.write Draft.write
  cases encoded : a.encode? with
  | error e => exact ⟨rfl, same⟩
  | ok data =>
    refine same.guarded ?_
    unfold Draft.startValue
    by_cases missing : d.inStruct ∧ d.field = none
    · rw [same.openValueMissing missing, if_pos missing]
      rfl
    · obtain ⟨opened, ok, spells, field, annotations, poisoned⟩ := same.openValue missing
      rw [ok, if_neg missing]
      obtain ⟨bytes, rest, shape⟩ := same.layout.shape
      have layout := same.layout
      rw [shape] at layout spells
      have tree : (Tree.atom d.field d.annotations a).encode? =
          .ok (Tree.fieldBytes d.field ++ Tree.wrap d.annotations data) := by
        simp [Tree.encode?, encoded, bind, Except.bind, pure, Except.pure]
      have placed := SidWriter.placedValue spells (topKindPlain d.inside) data
      have grown := Layout.add (d := d.taken) layout tree
      have kept := d.taken.addRest (.atom d.field d.annotations a)
      have closes := (opened.append data).closeWrapperRest
      refine ⟨placed.sound, by rw [placed.bodies]; exact grown, ?_, ?_, ?_⟩
      · rw [closes.1, kept.1]
        exact field
      · rw [closes.2.1, kept.2.1]
        exact annotations
      · rw [closes.2.2, kept.2.2]
        exact poisoned

theorem leavesNothing (same : Represents w d) (top : d.inside = []) : ∀ list ∈ w.abandoned, list = [] := by
  rw [SidWriter.abandoned, if_pos (same.closed.mpr top)]
  exact same.sound.spare

theorem flushable (same : Represents w d) : w.flushable = d.flushable := by
  simp only [SidWriter.flushable, Draft.flushable, same.depth, same.annotations, ne_eq, same.closed]

theorem checkFlushable (same : Represents w d) :
    Agrees (SidWriter.checkFlushable w) (Draft.checkFlushable d) := by
  refine same.guarded ?_
  rw [same.flushable]
  cases d.flushable with
  | ok _ => exact same
  | error e => rfl

theorem writeVersionMarker (same : Represents w d) :
    Agrees (SidWriter.writeVersionMarker w) (Draft.writeVersionMarker d) := by
  refine same.guarded ?_
  rw [same.flushable]
  cases ready : d.flushable with
  | error e => rfl
  | ok _ =>
    have top := (Draft.flushableOk ready).1
    have layout := same.layout
    rw [top] at layout
    generalize shape : w.bodies = bodies at layout
    cases layout with
    | root written =>
      have appended := SidWriter.appendSpells ⟨same.sound, shape⟩ versionMarker
      have kept := w.appendRest versionMarker
      refine ⟨appended.sound, ?_, kept.1.trans same.field, kept.2.1.trans same.annotations,
        kept.2.2.trans same.poisoned⟩
      rw [appended.bodies, top]
      have marker : Item.encode? .versionMarker = .ok versionMarker := rfl
      exact .root (Bytes.eachAdd written marker)

theorem finished (same : Represents w d) (top : d.inside = []) {bytes : Bytes}
    (written : Item.encodeAll? d.items = .ok bytes) :
    w.out.finish.2.listBytes w.out.finish.1 = bytes := by
  have layout := same.layout
  rw [top] at layout
  have only := layout.unique (.root written)
  rw [Streak.finishBytes]
  exact (Body.mk.inj (List.cons.inj only).1).2

theorem resumed (same : Represents w d) : Represents w.resumed d := by
  have settled := Streak.finishSettled same.sound.out
  have keeps := (Streak.finishKeeps same.sound.out).trans w.out.finish.2.markKeeps
  refine ⟨⟨Streak.startSound (Streak.finishSound same.sound.out) settled, ?_, same.sound.lengths, ?_,
    same.sound.spare⟩, ?_, same.field, same.annotations, same.poisoned⟩
  · intro p mem g inList
    exact keeps.settled g (same.sound.settled p mem g inList)
  · rw [w.resumedBytes]
    exact same.sound.top
  · rw [w.resumedBodies]
    exact same.layout

end Represents

theorem restartRepresents {w : SidWriter} (pool : w.out.pool.Sound)
    (clean : ∀ list ∈ w.abandoned, list = []) :
    Represents w.restart ⟨[], [], none, [], w.poisoned⟩ := by
  have nothing : ∀ g ∈ ([] : SegmentList), w.out.pool.reset.Settled g := by simp
  have bytes := Streak.startBytes w.out.pool.reset []
  refine ⟨⟨Streak.startSound (Pool.resetSound pool) nothing, by simp [SidWriter.restart],
    by simp [SidWriter.restart], ?_, clean⟩, ?_, rfl, rfl, rfl⟩
  · simp only [SidWriter.restart, bytes]
    rfl
  · simp only [SidWriter.bodies, SidWriter.restart, bytes]
    exact .root rfl

namespace Represents

variable {w : SidWriter} {d : Draft}

theorem checkedFlushable {d' : Draft} (ok : Draft.checkFlushable d = .ok () d') :
    d' = d ∧ d.inside = [] ∧ d.annotations = [] ∧ d.poisoned = false := by
  unfold Draft.checkFlushable Draft.guarded at ok
  split at ok
  · contradiction
  · rename_i healthy
    cases ready : d.flushable with
    | error e => simp [ready, Except.map] at ok
    | ok u =>
      obtain ⟨top, bare⟩ := Draft.flushableOk ready
      simp only [ready, Except.map, EStateM.Result.ok.injEq, true_and] at ok
      exact ⟨ok.symm, top, bare, by simpa using healthy⟩

theorem encodable (same : Represents w d) (top : d.inside = []) :
    ∃ bytes, Item.encodeAll? d.items = .ok bytes := by
  have layout := same.layout
  rw [top] at layout
  generalize w.bodies = bodies at layout
  cases layout with
  | root written => exact ⟨_, written⟩

theorem flush (same : Represents w d) (sink : Sink) :
    Alike (SameSink Represents) (SidWriter.flush (w, sink)) (Draft.flush (d, sink)) := by
  unfold SidWriter.flush Draft.flush
  dsimp only
  rcases same.checkFlushable.ends with ⟨u, w', d', left, right, next⟩ | ⟨e, w', d', left, right, next⟩
  · rw [left, right]
    obtain ⟨rfl, top, bare, healthy⟩ := checkedFlushable right
    obtain ⟨bytes, written⟩ := next.encodable top
    have whole := next.finished top written
    have sent := Pool.writeToBytes w'.out.finish.2 w'.out.finish.1 sink
    rw [whole] at sent
    dsimp only
    rw [written, sent]
    simp only [bind, EStateM.bind]
    cases Sink.write bytes sink with
    | error e sink => exact ⟨rfl, next.resumed, rfl⟩
    | ok u sink =>
      have fresh := restartRepresents next.sound.out.pool (next.leavesNothing top)
      refine ⟨rfl, ⟨fresh.sound, ?_, fresh.field, fresh.annotations, next.poisoned⟩, rfl⟩
      simpa [Draft.taken, top] using fresh.layout
  · rw [left, right]
    exact ⟨rfl, next, rfl⟩

theorem performs (same : Represents w d) {request : SidRequest} (kept : request ≠ .reset) :
    (w.perform request).1 = (d.perform request).1 ∧
      Represents (w.perform request).2 (d.perform request).2 := by
  cases request with
  | setField sid => exact Reply.ofCallAlike (same.setField sid)
  | annotate sid => exact Reply.ofCallAlike (Represents.annotate same sid)
  | setAnnotations sids => exact Reply.ofCallAlike (same.setAnnotations sids)
  | clearAnnotations => exact ⟨rfl, same.clearAnnotations⟩
  | stepIn type => exact Reply.ofCallAlike (same.stepIn type)
  | stepOut => exact Reply.ofCallAlike same.stepOut
  | write a => exact Reply.ofCallAlike (same.write a)
  | writeVersionMarker => exact Reply.ofCallAlike same.writeVersionMarker
  | checkFlushable => exact Reply.ofCallAlike same.checkFlushable
  | reset => exact absurd rfl kept
  | flush sink => exact Reply.ofFlushAlike (same.flush sink)

theorem afterRequests (same : Represents w d) {requests : List SidRequest}
    (kept : SidRequest.reset ∉ requests) :
    Represents (Calls.after SidWriter.perform w requests) (Calls.after Draft.perform d requests) := by
  induction requests generalizing w d with
  | nil => exact same
  | cons request rest ih =>
    have first := same.performs (List.ne_of_not_mem_cons kept).symm
    exact ih first.2 (List.not_mem_of_not_mem_cons kept)

theorem replies (same : Represents w d) {requests : List SidRequest}
    (kept : SidRequest.reset ∉ requests) :
    Calls.replies SidWriter.perform w requests = Calls.replies Draft.perform d requests := by
  induction requests generalizing w d with
  | nil => rfl
  | cons request rest ih =>
    have first := same.performs (List.ne_of_not_mem_cons kept).symm
    simp only [Calls.replies, first.1, ih first.2 (List.not_mem_of_not_mem_cons kept)]

end Represents

theorem Draft.flushOk {d d' : Draft} {sink after : Sink} {count : Nat}
    (ok : flush (d, sink) = .ok count (d', after)) :
    ∃ bytes, Item.encodeAll? d.items = .ok bytes ∧ count = bytes.length ∧
      after.received = sink.received ++ bytes ∧ d' = { d.taken with items := [] } := by
  unfold flush at ok
  cases checked : Draft.checkFlushable d with
  | error e d' => simp [checked] at ok
  | ok u d' =>
    obtain ⟨rfl, -⟩ := Represents.checkedFlushable checked
    cases written : Item.encodeAll? d'.items with
    | error e => simp [checked, written] at ok
    | ok bytes =>
      cases sent : Sink.write bytes sink with
      | error e k => simp [checked, written, sent] at ok
      | ok u k =>
        simp only [checked, written, sent, EStateM.Result.ok.injEq, Prod.mk.injEq] at ok
        obtain ⟨rfl, rfl, rfl⟩ := ok
        exact ⟨bytes, rfl, rfl, Sink.writeOk sent, rfl⟩

theorem Draft.flushed {d : Draft} {sink after : Sink} {count : Nat}
    (ok : (d.perform (.flush sink)).1 = .flushed count after) :
    ∃ bytes, Item.encodeAll? d.items = .ok bytes ∧ count = bytes.length ∧
      after.received = sink.received ++ bytes := by
  obtain ⟨bytes, written, size, received, -⟩ := flushOk (Reply.flushedIff.mp (Prod.ext ok rfl))
  exact ⟨bytes, written, size, received⟩

theorem Draft.flushes {d : Draft} {sink : Sink} {bytes : Bytes} (healthy : d.poisoned = false)
    (ready : d.flushable = .ok ()) (written : Item.encodeAll? d.items = .ok bytes)
    (unlimited : sink.limit = none) :
    d.perform (.flush sink) =
      (.flushed bytes.length { sink with received := sink.received ++ bytes },
        { d.taken with items := [] }) := by
  have checked : Draft.checkFlushable d = .ok () d := by
    simp [Draft.checkFlushable, Draft.guarded, healthy, ready, Except.map]
  simp only [perform, Reply.ofFlush, flush, checked, written, Sink.writeUnlimited bytes sink unlimited]

namespace Represents

variable {w : SidWriter} {d : Draft}

theorem flushed {w' : SidWriter} (same : Represents w d) {sink after : Sink} {count : Nat}
    (ok : SidWriter.flush (w, sink) = .ok count (w', after)) :
    ∃ bytes, Item.encodeAll? d.items = .ok bytes ∧ count = bytes.length ∧
      after.received = sink.received ++ bytes ∧ Represents w' { d.taken with items := [] } := by
  rcases (same.flush sink).ends with ⟨m, _, ⟨d', sink'⟩, left, plain, related, same'⟩ | ⟨e, _, _, left, -⟩
  · rw [ok] at left
    cases left
    cases same'
    obtain ⟨bytes, written, size, received, rfl⟩ := Draft.flushOk plain
    exact ⟨bytes, written, size, received, related⟩
  · rw [ok] at left
    contradiction

theorem flushes (same : Represents w d) {sink : Sink} {bytes : Bytes} (healthy : d.poisoned = false)
    (ready : d.flushable = .ok ()) (written : Item.encodeAll? d.items = .ok bytes)
    (unlimited : sink.limit = none) :
    ∃ w', SidWriter.flush (w, sink) =
      .ok bytes.length (w', { sink with received := sink.received ++ bytes }) := by
  have step : SidRequest.flush sink ≠ .reset := nofun
  have sent := (same.performs step).1
  rw [Draft.flushes healthy ready written unlimited] at sent
  exact ⟨_, Reply.flushedIff.mp (Prod.ext sent rfl)⟩

theorem runs {d' : Draft} (same : Represents w d) {requests : List SidRequest}
    (kept : SidRequest.reset ∉ requests) (plain : Calls.Runs Draft.perform d requests d') :
    ∃ w', Calls.Runs SidWriter.perform w requests w' ∧ Represents w' d' := by
  have after := same.afterRequests kept
  rw [plain.1] at after
  refine ⟨_, ⟨rfl, ?_⟩, after⟩
  rw [same.replies kept]
  exact plain.2

end Represents

theorem streamingWritesEncodings (blockSize : Nat) (requests : List SidRequest)
    (kept : SidRequest.reset ∉ requests) :
    let w := Calls.after SidWriter.perform (.empty blockSize) requests
    let d := Calls.after Draft.perform .empty requests
    Calls.replies SidWriter.perform (.empty blockSize) requests =
        Calls.replies Draft.perform .empty requests ∧
      (∀ sink after count, (w.perform (.flush sink)).1 = .flushed count after →
        ∃ bytes, Item.encodeAll? d.items = .ok bytes ∧ count = bytes.length ∧
          after.received = sink.received ++ bytes) ∧
      (d.poisoned = false → d.flushable = .ok () → ∀ sink, sink.limit = none →
        ∃ after count, (w.perform (.flush sink)).1 = .flushed count after) := by
  intro w d
  have same : Represents w d := (Represents.empty blockSize).afterRequests kept
  refine ⟨(Represents.empty blockSize).replies kept, ?_, ?_⟩
  · intro sink after count ok
    have step : SidRequest.flush sink ≠ .reset := nofun
    rw [(same.performs step).1] at ok
    exact Draft.flushed ok
  · intro healthy ready sink unlimited
    obtain ⟨bytes, written⟩ := same.encodable (Draft.flushableOk ready).1
    have step : SidRequest.flush sink ≠ .reset := nofun
    rw [(same.performs step).1,
      Draft.flushes healthy ready written unlimited]
    exact ⟨_, _, rfl⟩

theorem streamingWritesAnnotatedList :
    SidRequest.reset ∉ [SidRequest.annotate 9, .stepIn .list, .write (.bool true), .stepOut] ∧
      Calls.replies SidWriter.perform (.empty 1)
          [SidRequest.annotate 9, .stepIn .list, .write (.bool true), .stepOut,
            .flush (.empty none false)] =
        [.done, .done, .done, .done, .flushed 5 ⟨none, false, [0xE4, 0x81, 0x89, 0xB1, 0x11]⟩] :=
  ⟨by decide, (streamingWritesEncodings 1 _ (by decide)).1.trans (by decide +kernel)⟩

end Ion
