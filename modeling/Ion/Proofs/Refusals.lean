import Ion.Proofs.Recuts
import Ion.Proofs.Resets
import Ion.Proofs.Slots

/-! Calls that fail. Every check of a call comes before its first change, so a failure leaves the
writer as it was and at most marks it as poisoned. A flush that the sink refuses is the exception: the
body goes on in a new segment, which nothing after it tells apart. -/
namespace Ion

namespace Reply

def error? : Reply → Option IonError
  | done | flushed .. => none
  | failed e | flushFailed e _ => some e

theorem ofCallError {call : EStateM IonError σ Unit} {s : σ} {e : IonError}
    (fails : (ofCall call s).1.error? = some e) : call s = .error e (ofCall call s).2 := by
  unfold ofCall at fails ⊢
  cases result : call s with
  | ok u s' =>
    rw [result] at fails
    contradiction
  | error f s' =>
    rw [result] at fails
    cases fails
    rfl

theorem ofCallStays {call : EStateM IonError σ Unit} {s : σ} {e : IonError} (fails : call s = .error e s) :
    ∃ e, (ofCall call s).1.error? = some e ∧ (ofCall call s).2 = s := by
  rw [ofCall, fails]
  exact ⟨e, rfl, rfl⟩

theorem ofFlushError {call : EStateM IonError (σ × Sink) Nat} {s : σ} {sink : Sink} {e : IonError}
    (fails : (ofFlush call sink s).1.error? = some e) :
    ∃ after, (ofFlush call sink s).1 = flushFailed e after ∧
      call (s, sink) = .error e ((ofFlush call sink s).2, after) := by
  unfold ofFlush at fails ⊢
  cases result : call (s, sink) with
  | ok n s' =>
    rw [result] at fails
    contradiction
  | error f s' =>
    rw [result] at fails
    cases fails
    exact ⟨s'.2, rfl, rfl⟩

end Reply

theorem Sink.writeStops {data : Bytes} {k after : Sink} {cause : SinkError}
    (stops : write data k = .error cause after) :
    ∃ limit, k.limit = some limit ∧ limit - k.received.length < data.length ∧
      after = { k with received := k.received ++ data.take (limit - k.received.length) } := by
  simp only [write, room] at stops
  cases limited : k.limit with
  | none => simp [limited] at stops
  | some limit =>
    simp only [limited] at stops
    split at stops
    · contradiction
    · have short : min data.length (limit - k.received.length) = limit - k.received.length := by omega
      rw [short] at stops
      cases stops
      exact ⟨limit, rfl, by omega, rfl⟩

theorem Atom.encodeError {a : Atom} {e : IonError} (fails : a.encode? = .error e) :
    e = .numericOverflow := by
  cases a with
  | decimal d =>
    simp only [encode?, Wire.decimal?] at fails
    split at fails
    · cases fails
      rfl
    · split at fails <;> contradiction
  | _ => contradiction

namespace SidWriter

variable {w w' : SidWriter} {e : IonError}

def refused (w : SidWriter) (e : IonError) : SidWriter :=
  { w with poisoned := w.poisoned || e.isStructural }

theorem refusedPlain (w : SidWriter) (plain : e.isStructural = false) : w.refused e = w := by
  rw [refused, plain, Bool.or_false]

theorem guardedRefuses {act : SidWriter → Except IonError SidWriter}
    (fails : guarded act w = .error e w') : w' = w.refused e := by
  unfold guarded at fails
  split at fails
  · cases fails
    exact (w.refusedPlain rfl).symm
  · rename_i healthy
    split at fails
    · contradiction
    · cases fails
      rw [refused, Bool.eq_false_iff.mpr healthy, Bool.false_or]

theorem writeRefuses {a : Atom} (fails : write a w = .error e w') : w' = w.refused e := by
  unfold write at fails
  cases encoded : a.encode? with
  | ok data =>
    rw [encoded] at fails
    exact guardedRefuses fails
  | error f =>
    rw [encoded] at fails
    cases fails
    rw [Atom.encodeError encoded, refusedPlain w rfl]

theorem flushRefuses {sink after : Sink} (fails : flush (w, sink) = .error e (w', after)) :
    (checkFlushable w = .error e w' ∧ after = sink) ∨
      ∃ cause, e = .output cause ∧ checkFlushable w = .ok () w ∧
        Sink.write w.out.bytes sink = .error cause after ∧ w' = w.resumed := by
  rw [flushWrites] at fails
  cases checked : checkFlushable w with
  | error f u =>
    rw [checked] at fails
    cases fails
    exact .inl ⟨rfl, rfl⟩
  | ok _ u =>
    obtain ⟨rfl, -, -, -⟩ := checkedReady checked
    rw [checked] at fails
    dsimp only at fails
    cases sent : Sink.write u.out.bytes sink with
    | ok _ k =>
      rw [sent] at fails
      contradiction
    | error cause k =>
      rw [sent] at fails
      cases fails
      exact .inr ⟨cause, rfl, rfl, rfl, rfl⟩

theorem checkFails (fails : checkFlushable w = .error e w') (cause : SinkError) : e ≠ .output cause := by
  rintro rfl
  unfold checkFlushable guarded at fails
  by_cases poisoned : w.poisoned
  · rw [if_pos poisoned] at fails
    cases fails
  · rw [if_neg poisoned] at fails
    by_cases closed : w.below = [] <;> by_cases bare : w.annotations = [] <;>
      simp [flushable, closed, bare, Except.map] at fails

theorem performRefuses {request : SidRequest} (fails : (w.perform request).1.error? = some e) :
    (w.perform request).2 = w.refused e ∨
      e.isStructural = false ∧ (w.perform request).2 = w.resumed := by
  cases request with
  | setField | annotate | setAnnotations | stepIn | stepOut | writeVersionMarker | checkFlushable =>
    exact .inl (guardedRefuses (Reply.ofCallError fails))
  | write a => exact .inl (writeRefuses (Reply.ofCallError fails))
  | clearAnnotations | reset => contradiction
  | flush sink =>
    obtain ⟨after, -, failed⟩ := Reply.ofFlushError fails
    rcases flushRefuses failed with ⟨checked, -⟩ | ⟨cause, rfl, -, -, left⟩
    · exact .inl (guardedRefuses checked)
    · exact .inr ⟨rfl, left⟩

structure Refused (w w' : SidWriter) (e : IonError) : Prop where
  frames : w'.frames = w.frames
  bufferedLength : w'.bufferedLength = w.bufferedLength
  field : w'.field = w.field
  annotations : w'.annotations = w.annotations
  bodies : w'.bodies = w.bodies
  poisoned : w'.poisoned = (w.poisoned || e.isStructural)
  later : ∀ requests,
    Calls.trace perform view { w' with poisoned := w.poisoned } requests =
      Calls.trace perform view w requests

theorem Recut.view {v : SidWriter} (recut : Recut w v) : w.view = v.view := by
  simp only [SidWriter.view, SidWriter.bufferedLength, Recut.congruence.depth recut, recut.frames,
    Recut.congruence.inStruct recut, recut.field, recut.annotations, recut.poisoned]

theorem resumedTrace (marked : w.out.pool.marked ≤ w.out.pool.filled) (requests : List SidRequest) :
    Calls.trace perform view w.resumed requests = Calls.trace perform view w requests :=
  Calls.traceAlike (fun request => Recut.congruence.performsAny Recut.restart request)
    (fun recut => recut.view) (resumedRecut w marked) requests

theorem refuses (marked : w.out.pool.marked ≤ w.out.pool.filled) {request : SidRequest}
    (fails : (w.perform request).1.error? = some e) : Refused w (w.perform request).2 e := by
  rcases performRefuses fails with left | ⟨plain, left⟩
  · rw [left]
    exact ⟨rfl, rfl, rfl, rfl, rfl, rfl, fun _ => rfl⟩
  · rw [left]
    refine ⟨rfl, rfl, rfl, rfl, w.resumedBodies, ?_, resumedTrace marked⟩
    rw [plain, Bool.or_false]
    rfl

theorem flushStops {sink after : Sink} {cause : SinkError}
    (fails : (w.perform (.flush sink)).1 = .flushFailed (.output cause) after) :
    ∃ limit, sink.limit = some limit ∧ limit - sink.received.length < w.out.bytes.length ∧
      after = { sink with
        received := sink.received ++ w.out.bytes.take (limit - sink.received.length) } ∧
      ∀ next : Sink, next.limit = none →
        ((w.perform (.flush sink)).2.perform (.flush next)).1 =
          .flushed w.out.bytes.length { next with received := next.received ++ w.out.bytes } := by
  obtain ⟨got, same, failed⟩ := Reply.ofFlushError (congrArg Reply.error? fails)
  obtain ⟨-, rfl⟩ := Reply.flushFailed.inj (same.symm.trans fails)
  rcases flushRefuses failed with ⟨checked, -⟩ | ⟨cause', -, checked, stops, left⟩
  · exact absurd rfl (checkFails checked cause)
  · obtain ⟨limit, limited, short, taken⟩ := Sink.writeStops stops
    refine ⟨limit, limited, short, taken, ?_⟩
    intro next unlimited
    obtain ⟨-, closed, bare, healthy⟩ := checkedReady checked
    have ready : checkFlushable w.resumed = .ok () w.resumed := readyChecks closed bare healthy
    have sent : flush (w.resumed, next) = .ok w.out.bytes.length
        (w.resumed.restart, { next with received := next.received ++ w.out.bytes }) := by
      rw [flushWrites, ready]
      simp only [resumedBytes, Sink.writeUnlimited _ next unlimited]
    have state : (w.perform (.flush sink)).2 = w.resumed := left
    rw [state, perform, Reply.flushedIff.mpr sent]

structure Stuck (w : SidWriter) : Prop where
  poisoned : w.poisoned = true
  refuses : ∀ request, request ≠ .reset → request ≠ .clearAnnotations →
    ∃ e, (w.perform request).1.error? = some e ∧ (w.perform request).2 = w
  sendsNothing : ∀ sink, (w.perform (.flush sink)).1 = .flushFailed .poisoned sink

theorem guardedPoisoned (poisoned : w.poisoned = true) (act : SidWriter → Except IonError SidWriter) :
    guarded act w = .error .poisoned w := if_pos poisoned

theorem flushPoisoned (poisoned : w.poisoned = true) (sink : Sink) :
    w.perform (.flush sink) = (.flushFailed .poisoned sink, w) := by
  have checked : checkFlushable w = .error .poisoned w := guardedPoisoned poisoned _
  rw [perform, Reply.ofFlush, flushWrites, checked]

theorem poisonedStuck (poisoned : w.poisoned = true) : w.Stuck := by
  refine ⟨poisoned, ?_, ?_⟩
  · intro request kept fallible
    cases request with
    | reset => exact absurd rfl kept
    | clearAnnotations => exact absurd rfl fallible
    | flush sink => exact ⟨.poisoned, by rw [flushPoisoned poisoned]; exact ⟨rfl, rfl⟩⟩
    | write a =>
      cases encoded : a.encode? with
      | error e =>
        have fails : write a w = .error e w := by rw [write, encoded]; rfl
        exact Reply.ofCallStays fails
      | ok data =>
        have fails : write a w = .error .poisoned w := by
          rw [write, encoded]
          exact guardedPoisoned poisoned _
        exact Reply.ofCallStays fails
    | setField | annotate | setAnnotations | stepIn | stepOut | writeVersionMarker | checkFlushable =>
      exact Reply.ofCallStays (guardedPoisoned poisoned _)
  · intro sink
    rw [flushPoisoned poisoned]

theorem performPoisoned (poisoned : w.poisoned = true) {request : SidRequest} (kept : request ≠ .reset) :
    ∃ sids, (w.perform request).2 = { w with annotations := sids } := by
  by_cases clears : request = .clearAnnotations
  · subst clears
    exact ⟨[], rfl⟩
  · obtain ⟨e, -, stays⟩ := (poisonedStuck poisoned).refuses request kept clears
    exact ⟨w.annotations, stays⟩

theorem afterPoisoned (poisoned : w.poisoned = true) {requests : List SidRequest}
    (kept : .reset ∉ requests) :
    ∃ sids, Calls.after perform w requests = { w with annotations := sids } := by
  induction requests generalizing w with
  | nil => exact ⟨w.annotations, rfl⟩
  | cons request rest ih =>
    obtain ⟨sids, step⟩ := performPoisoned poisoned (List.ne_of_not_mem_cons kept).symm
    obtain ⟨last, steps⟩ := ih (w := { w with annotations := sids }) poisoned (List.not_mem_of_not_mem_cons kept)
    refine ⟨last, ?_⟩
    rw [Calls.after, List.foldl_cons, step]
    exact steps

theorem Twin.marked {size : Nat} {v : SidWriter} (twin : Twin size w v) :
    w.out.pool.marked ≤ w.out.pool.filled := twin.out.pool.left.marked

/-- No call that fails leaves a trace, except that a structural failure stops the writer. -/
structure Atomic (w : SidWriter) : Prop where
  refuses : ∀ request e, (w.perform request).1.error? = some e → Refused w (w.perform request).2 e
  -- a sink that runs full got what it had room for, and another one then gets everything
  retries : ∀ sink cause after, (w.perform (.flush sink)).1 = .flushFailed (.output cause) after →
    ∃ limit, sink.limit = some limit ∧ limit - sink.received.length < w.out.bytes.length ∧
      after = { sink with
        received := sink.received ++ w.out.bytes.take (limit - sink.received.length) } ∧
      ∀ next : Sink, next.limit = none →
        ((w.perform (.flush sink)).2.perform (.flush next)).1 =
          .flushed w.out.bytes.length { next with received := next.received ++ w.out.bytes }
  stops : w.poisoned = true → ∀ later, .reset ∉ later →
    (Calls.after perform w later).Stuck ∧
      ∃ sids, Calls.after perform w later = { w with annotations := sids }

theorem Twin.atomic {size : Nat} (twin : Twin size w w) : w.Atomic := by
  refine ⟨fun request e fails => refuses twin.marked fails, fun sink cause after fails => flushStops fails, ?_⟩
  intro poisoned later kept
  obtain ⟨sids, same⟩ := afterPoisoned poisoned kept
  refine ⟨?_, sids, same⟩
  rw [same]
  exact poisonedStuck (w := { w with annotations := sids }) poisoned

end SidWriter

/-- Behind any calls the storage answers as the writer does, and the writer is atomic. -/
theorem refusalsAtomic (blockSize : Nat) (history : List SidRequest) :
    let w := Calls.after SidWriter.perform (.empty blockSize) history
    (∃ s, (SlotWriter.empty blockSize).after? history = some s ∧ s.Stores w ∧
      ∀ request, ∃ s', s.perform? request = some ((w.perform request).1, s') ∧
        s'.Stores (w.perform request).2) ∧
    w.Atomic := by
  intro w
  have twin : SidWriter.Twin (max blockSize 16) w w :=
    Calls.afterAlike (fun request => SidWriter.Twin.performs request) (.empty blockSize) history
  obtain ⟨s, ran, stores⟩ := (SlotWriter.emptyStores blockSize).after history
  exact ⟨⟨s, ran, stores, stores.performs⟩, twin.atomic⟩

theorem refusalsKeepList :
    let history : List SidRequest :=
      [.stepIn .list, .write (.bool true), .stepOut, .flush (.empty (some 1) false)]
    let w := Calls.after SidWriter.perform (.empty Pool.defaultBlockSize) history
    let v := (w.perform (.setField 4)).2
    SidWriter.Refused w v .fieldNameOutsideStruct ∧
    ((w.perform (.flush (.empty (some 1) false))).2.perform (.flush (.empty none false))).1 =
      .flushed 2 ⟨none, false, [0xB1, 0x11]⟩ ∧
    (Calls.after SidWriter.perform v [.stepOut, .write (.bool false)]).Stuck := by
  intro history w v
  have fails : (w.perform (.setField 4)).1.error? = some .fieldNameOutsideStruct := by decide +kernel
  have stops : (w.perform (.flush (.empty (some 1) false))).1 =
      .flushFailed (.output .full) ⟨some 1, false, [0xB1]⟩ := by decide +kernel
  have bytes : w.out.bytes = [0xB1, 0x11] := by decide +kernel
  have poisoned : v.poisoned = true := by decide +kernel
  have runs : Calls.after SidWriter.perform (.empty Pool.defaultBlockSize) (history ++ [.setField 4]) = v := by
    rw [Calls.after, List.foldl_append]
    rfl
  have atomic : w.Atomic := (refusalsAtomic Pool.defaultBlockSize history).2
  obtain ⟨limit, -, -, -, again⟩ := atomic.retries _ _ _ stops
  have sent := again (.empty none false) rfl
  rw [bytes] at sent
  refine ⟨atomic.refuses _ _ fails, sent, ?_⟩
  have later := (refusalsAtomic Pool.defaultBlockSize (history ++ [.setField 4])).2
  rw [runs] at later
  exact (later.stops poisoned [.stepOut, .write (.bool false)] (by decide)).1

end Ion
