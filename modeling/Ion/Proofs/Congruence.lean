import Ion.Proofs.Streaming

/-! Writers that no call tells apart. It is enough that two writers show the same and hold the same
bytes, and go on doing so whatever is done to their frames: every call is made of such steps. -/
namespace Ion

namespace SidWriter

theorem checkedReady {w w' : SidWriter} (ok : checkFlushable w = .ok () w') :
    w' = w ∧ w.below = [] ∧ w.annotations = [] ∧ w.poisoned = false := by
  unfold checkFlushable guarded at ok
  by_cases poisoned : w.poisoned
  · rw [if_pos poisoned] at ok
    contradiction
  · rw [if_neg poisoned] at ok
    by_cases closed : w.below = [] <;> by_cases bare : w.annotations = [] <;>
      simp only [flushable, closed, bare, Except.map, ne_eq, not_true_eq_false, not_false_eq_true,
        if_true, if_false, reduceCtorEq, EStateM.Result.ok.injEq] at ok
    exact ⟨ok.2.symm, closed, bare, Bool.eq_false_iff.mpr poisoned⟩

theorem readyChecks {w : SidWriter} (closed : w.below = []) (bare : w.annotations = [])
    (healthy : w.poisoned = false) : checkFlushable w = .ok () w := by
  simp [checkFlushable, guarded, flushable, healthy, bare, closed, Except.map]

theorem flushWrites (w : SidWriter) (sink : Sink) :
    flush (w, sink) =
      match checkFlushable w with
      | .error e w => .error e (w, sink)
      | .ok _ w =>
        match Sink.write w.out.bytes sink with
        | .ok _ sink => .ok w.out.bytes.length (w.restart, sink)
        | .error e sink => .error (.output e) (w.resumed, sink) := by
  unfold flush
  dsimp only
  cases checkFlushable w with
  | error e w => rfl
  | ok u w =>
    dsimp only
    rw [Pool.writeToBytes, Streak.finishBytes]
    simp only [bind, EStateM.bind]
    cases Sink.write w.out.bytes sink <;> rfl

theorem flushed {w w' : SidWriter} {sink after : Sink} {count : Nat}
    (ok : flush (w, sink) = .ok count (w', after)) :
    checkFlushable w = .ok () w ∧ w' = w.restart ∧ count = w.out.bytes.length := by
  rw [flushWrites] at ok
  cases checked : checkFlushable w with
  | error e v =>
    rw [checked] at ok
    contradiction
  | ok _ v =>
    obtain ⟨rfl, -⟩ := checkedReady checked
    rw [checked] at ok
    dsimp only at ok
    cases taken : Sink.write v.out.bytes sink with
    | ok _ k =>
      rw [taken] at ok
      cases ok
      exact ⟨rfl, rfl, rfl⟩
    | error e k =>
      rw [taken] at ok
      contradiction

theorem flushCounts {w : SidWriter} {sink after : Sink} {count : Nat}
    (sent : (w.perform (.flush sink)).1 = .flushed count after) :
    w.below = [] ∧ count = w.out.bytes.length := by
  obtain ⟨checked, -, counts⟩ := flushed (Reply.flushedIff.mp (Reply.andState sent))
  exact ⟨(checkedReady checked).2.1, counts⟩

structure Congruence (R : SidWriter → SidWriter → Prop) : Prop where
  frames {w v} (same : R w v) : w.frames = v.frames
  field {w v} (same : R w v) : w.field = v.field
  annotations {w v} (same : R w v) : w.annotations = v.annotations
  poisoned {w v} (same : R w v) : w.poisoned = v.poisoned
  bytes {w v} (same : R w v) : w.out.bytes = v.out.bytes
  pending {w v} (same : R w v) (field : Option Nat) (annotations : List Nat) (poisoned : Bool) :
    R { w with field, annotations, poisoned } { v with field, annotations, poisoned }
  append {w v} (same : R w v) (data : Bytes) : R (w.append data) (v.append data)
  openFrame {w v} (same : R w v) (kind : FrameKind) : R (w.openFrame kind) (v.openFrame kind)
  closeFrame {w v} (same : R w v) : R w.closeFrame v.closeFrame
  restart {w v} (same : R w v) (closed : w.below = []) : R w.restart v.restart
  resumed {w v} (same : R w v) : R w.resumed v.resumed

namespace Congruence

variable {R : SidWriter → SidWriter → Prop} (congruence : Congruence R) {w v : SidWriter}

include congruence

theorem top (same : R w v) : w.top = v.top := (List.cons.inj (congruence.frames same)).1

theorem closed (same : R w v) : w.below = [] ↔ v.below = [] := by
  have below := (List.cons.inj (congruence.frames same)).2
  rw [← List.map_eq_nil_iff (f := ParkedFrame.frame), below, List.map_eq_nil_iff]

theorem inStruct (same : R w v) : w.inStruct = v.inStruct := by
  rw [SidWriter.inStruct, congruence.top same, SidWriter.inStruct]

theorem depth (same : R w v) : w.depth = v.depth := by
  rw [SidWriter.depth, congruence.frames same, SidWriter.depth]

theorem changed (same : R w v) {field field' : Option Nat} {sids sids' : List Nat}
    {poisoned poisoned' : Bool} (sameField : field = field') (sameSids : sids = sids')
    (samePoison : poisoned = poisoned') :
    R { w with field, annotations := sids, poisoned }
      { v with field := field', annotations := sids', poisoned := poisoned' } := by
  subst sameField sameSids samePoison
  exact congruence.pending same field sids poisoned

theorem closeWrapper (same : R w v) : R w.closeWrapper v.closeWrapper := by
  unfold SidWriter.closeWrapper
  rw [← congruence.top same]
  split
  · exact congruence.closeFrame same
  · exact same

theorem named (same : R w v) : R w.named v.named := by
  unfold SidWriter.named
  rw [← congruence.field same]
  split
  · rename_i sid field
    have written := congruence.append same (VarUInt.encode sid)
    exact congruence.changed written rfl (congruence.annotations written) (congruence.poisoned written)
  · exact same

theorem openValue (same : R w v) : Follows R w.openValue v.openValue := by
  have inner := congruence.named same
  rw [openValueNamed, openValueNamed, ← congruence.inStruct same, ← congruence.field same,
    ← congruence.annotations inner]
  split
  · rfl
  · split
    · exact inner
    · have written := congruence.append (congruence.openFrame inner .wrapper)
        (Tree.annotationBytes w.named.annotations)
      exact congruence.changed written (congruence.field written) rfl (congruence.poisoned written)

theorem guarded (same : R w v) {act : SidWriter → Except IonError SidWriter}
    (follows : Follows R (act w) (act v)) :
    Alike R (SidWriter.guarded act w) (SidWriter.guarded act v) := by
  unfold SidWriter.guarded
  rw [← congruence.poisoned same]
  split
  · exact ⟨rfl, same⟩
  · rcases follows.ends with ⟨w', v', left, right, next⟩ | ⟨e, left, right⟩
    · rw [left, right]
      exact ⟨rfl, next⟩
    · rw [left, right]
      exact ⟨rfl, congruence.changed same (congruence.field same) (congruence.annotations same) rfl⟩

omit congruence in
theorem follows {e e' : Except IonError SidWriter} {f : SidWriter → SidWriter} (values : Follows R e e')
    (keeps : ∀ {w v : SidWriter}, R w v → R (f w) (f v)) : Follows R (e.map f) (e'.map f) := by
  rcases values.ends with ⟨w, v, rfl, rfl, same⟩ | ⟨error, rfl, rfl⟩
  · exact keeps same
  · rfl

theorem setField (same : R w v) (sid : Nat) :
    Alike R (SidWriter.setField sid w) (SidWriter.setField sid v) := by
  refine congruence.guarded same ?_
  rw [← congruence.inStruct same]
  split
  · exact congruence.changed same rfl (congruence.annotations same) (congruence.poisoned same)
  · rfl

theorem annotate (same : R w v) (sid : Nat) :
    Alike R (SidWriter.addAnnotation sid w) (SidWriter.addAnnotation sid v) := by
  refine congruence.guarded same ?_
  rw [← congruence.annotations same]
  split
  · exact congruence.changed same (congruence.field same) rfl (congruence.poisoned same)
  · rfl

theorem setAnnotations (same : R w v) (sids : List Nat) :
    Alike R (SidWriter.setAnnotations sids w) (SidWriter.setAnnotations sids v) := by
  refine congruence.guarded same ?_
  split
  · exact congruence.changed same (congruence.field same) rfl (congruence.poisoned same)
  · rfl

theorem clearAnnotations (same : R w v) : R w.clearAnnotations v.clearAnnotations :=
  congruence.changed same (congruence.field same) rfl (congruence.poisoned same)

theorem stepIn (same : R w v) (type : ValueType) :
    Alike R (SidWriter.stepIn type w) (SidWriter.stepIn type v) := by
  refine congruence.guarded same ?_
  cases type.container? with
  | none => rfl
  | some c =>
    exact follows (congruence.openValue same) fun inner => congruence.openFrame inner (.container c)

theorem stepOut (same : R w v) : Alike R (SidWriter.stepOut w) (SidWriter.stepOut v) := by
  refine congruence.guarded same ?_
  rw [← congruence.field same, ← congruence.annotations same, ← congruence.top same]
  split
  · rfl
  · split
    · rfl
    · split
      · exact congruence.closeWrapper (congruence.closeFrame same)
      · rfl

theorem write (same : R w v) (a : Atom) : Alike R (SidWriter.write a w) (SidWriter.write a v) := by
  unfold SidWriter.write
  cases a.encode? with
  | error e => exact ⟨rfl, same⟩
  | ok data =>
    exact congruence.guarded same <| follows (congruence.openValue same) fun inner =>
      congruence.closeWrapper (congruence.append inner data)

theorem flushable (same : R w v) : w.flushable = v.flushable := by
  simp only [SidWriter.flushable, ne_eq, congruence.closed same, congruence.annotations same,
    congruence.depth same]

theorem checks (same : R w v) {f : SidWriter → SidWriter} (keeps : R (f w) (f v)) :
    Alike R (SidWriter.guarded (fun w => w.flushable.map fun _ => f w) w)
      (SidWriter.guarded (fun w => w.flushable.map fun _ => f w) v) := by
  refine congruence.guarded same ?_
  rw [← congruence.flushable same]
  cases w.flushable with
  | ok _ => exact keeps
  | error e => rfl

theorem checkFlushable (same : R w v) :
    Alike R (SidWriter.checkFlushable w) (SidWriter.checkFlushable v) := congruence.checks same same

theorem writeVersionMarker (same : R w v) :
    Alike R (SidWriter.writeVersionMarker w) (SidWriter.writeVersionMarker v) :=
  congruence.checks same (congruence.append same versionMarker)

theorem flush (same : R w v) (sink : Sink) :
    Alike (SameSink R) (SidWriter.flush (w, sink)) (SidWriter.flush (v, sink)) := by
  rw [flushWrites, flushWrites]
  rcases (congruence.checkFlushable same).ends with
    ⟨u, w', v', left, right, inner⟩ | ⟨e, w', v', left, right, inner⟩
  · rw [left, right]
    dsimp only
    rw [← congruence.bytes inner]
    cases Sink.write w'.out.bytes sink with
    | ok u sink =>
      obtain ⟨rfl, closed, -⟩ := checkedReady left
      exact ⟨rfl, congruence.restart inner closed, rfl⟩
    | error e sink => exact ⟨rfl, congruence.resumed inner, rfl⟩
  · rw [left, right]
    exact ⟨rfl, inner, rfl⟩

theorem flushBoth : Both (SameSink R) SidWriter.flush SidWriter.flush := by
  rintro ⟨w, sink⟩ ⟨v, sink'⟩ ⟨same, rfl⟩
  exact congruence.flush same sink

theorem call (request : SidRequest) : Both R request.call request.call := by
  intro w v same
  cases request with
  | setField sid => exact congruence.setField same sid
  | annotate sid => exact congruence.annotate same sid
  | setAnnotations sids => exact congruence.setAnnotations same sids
  | clearAnnotations => exact ⟨rfl, congruence.clearAnnotations same⟩
  | stepIn type => exact congruence.stepIn same type
  | stepOut => exact congruence.stepOut same
  | write a => exact congruence.write same a
  | writeVersionMarker => exact congruence.writeVersionMarker same
  | checkFlushable => exact congruence.checkFlushable same
  | flush | reset => exact ⟨rfl, same⟩

theorem performs {w v : SidWriter} {request : SidRequest} (same : R w v) (kept : request ≠ .reset) :
    (w.perform request).1 = (v.perform request).1 ∧ R (w.perform request).2 (v.perform request).2 := by
  cases request with
  | setField sid => exact Reply.ofCallAlike (congruence.setField same sid)
  | annotate sid => exact Reply.ofCallAlike (congruence.annotate same sid)
  | setAnnotations sids => exact Reply.ofCallAlike (congruence.setAnnotations same sids)
  | clearAnnotations => exact ⟨rfl, congruence.clearAnnotations same⟩
  | stepIn type => exact Reply.ofCallAlike (congruence.stepIn same type)
  | stepOut => exact Reply.ofCallAlike (congruence.stepOut same)
  | write a => exact Reply.ofCallAlike (congruence.write same a)
  | writeVersionMarker => exact Reply.ofCallAlike (congruence.writeVersionMarker same)
  | checkFlushable => exact Reply.ofCallAlike (congruence.checkFlushable same)
  | flush sink => exact Reply.ofFlushAlike (congruence.flush same sink)
  | reset => exact absurd rfl kept

section Resets

variable (restarts : ∀ {w v}, R w v → R w.restart v.restart)

include restarts

theorem reset (same : R w v) : R w.reset v.reset :=
  congruence.changed (restarts same) rfl rfl rfl

theorem performsAny {w v : SidWriter} (request : SidRequest) (same : R w v) :
    (w.perform request).1 = (v.perform request).1 ∧ R (w.perform request).2 (v.perform request).2 := by
  by_cases resets : request = .reset
  · subst resets
    exact ⟨rfl, congruence.reset restarts same⟩
  · exact congruence.performs same resets

end Resets

end Congruence

structure Stable (P : SidWriter → Prop) : Prop where
  pending {w} (holds : P w) (field : Option Nat) (annotations : List Nat) (poisoned : Bool) :
    P { w with field, annotations, poisoned }
  append {w} (holds : P w) (data : Bytes) : P (w.append data)
  openFrame {w} (holds : P w) (kind : FrameKind) : P (w.openFrame kind)
  closeFrame {w} (holds : P w) : P w.closeFrame
  restart {w} (holds : P w) (closed : w.below = []) : P w.restart
  resumed {w} (holds : P w) : P w.resumed

namespace Stable

variable {P : SidWriter → Prop} (stable : Stable P) {w : SidWriter}

include stable

theorem congruence : Congruence fun w v => w = v ∧ P w where
  frames same := same.1 ▸ rfl
  field same := same.1 ▸ rfl
  annotations same := same.1 ▸ rfl
  poisoned same := same.1 ▸ rfl
  bytes same := same.1 ▸ rfl
  pending same _ _ _ := ⟨same.1 ▸ rfl, stable.pending same.2 _ _ _⟩
  append same _ := ⟨same.1 ▸ rfl, stable.append same.2 _⟩
  openFrame same _ := ⟨same.1 ▸ rfl, stable.openFrame same.2 _⟩
  closeFrame same := ⟨same.1 ▸ rfl, stable.closeFrame same.2⟩
  restart same closed := ⟨same.1 ▸ rfl, stable.restart same.2 closed⟩
  resumed same := ⟨same.1 ▸ rfl, stable.resumed same.2⟩

theorem after (holds : P w) {requests : List SidRequest} (kept : .reset ∉ requests) :
    P (Calls.after perform w requests) := by
  induction requests generalizing w with
  | nil => exact holds
  | cons request rest ih =>
    have step := stable.congruence.performs ⟨rfl, holds⟩ (List.ne_of_not_mem_cons kept).symm
    exact ih step.2.2 (List.not_mem_of_not_mem_cons kept)

end Stable

end SidWriter

end Ion
