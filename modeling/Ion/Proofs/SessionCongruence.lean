import Ion.Proofs.Congruence
import Ion.Proofs.Sessions

/-! Session writers that no call tells apart: their two writers below are related each in its own way,
and the rest of the session is the same. -/
namespace Ion.SessionWriter

structure Congruence (U S : SidWriter → SidWriter → Prop) (R : SessionWriter → SessionWriter → Prop) :
    Prop where
  users : SidWriter.Congruence U
  marks : Both S SidWriter.writeVersionMarker SidWriter.writeVersionMarker
  declares (append : Bool) (imports : List Layer) (added : List (Option String)) :
    Both S (writeTable append imports added) (writeTable append imports added)
  sends : Both (SameSink S) SidWriter.flush SidWriter.flush
  user {w v} (same : R w v) : U w.user v.user
  system {w v} (same : R w v) : S w.system v.system
  symbols {w v} (same : R w v) : w.symbols = v.symbols
  declared {w v} (same : R w v) : w.declared = v.declared
  tableWritten {w v} (same : R w v) : w.tableWritten = v.tableWritten
  sessionOpen {w v} (same : R w v) : w.sessionOpen = v.sessionOpen
  withUser {w v} (same : R w v) {u t : SidWriter} (users : U u t) :
    R { w with user := u } { v with user := t }
  withSystem {w v} (same : R w v) {u t : SidWriter} (systems : S u t) :
    R { w with system := u } { v with system := t }
  grown {w v} (same : R w v) {t : SymbolTable} (grown : w.symbols.Extends t) :
    R { w with symbols := t } { v with symbols := t }
  announced {w v} (same : R w v) (declared : Nat) (tableWritten sessionOpen : Bool) :
    R { w with declared, tableWritten, sessionOpen } { v with declared, tableWritten, sessionOpen }
  ended {w v} (same : R w v) : R w.endSession v.endSession

namespace Congruence

variable {U S : SidWriter → SidWriter → Prop} {R : SessionWriter → SessionWriter → Prop}
  (congruence : Congruence U S R) {w v : SessionWriter}

include congruence

theorem onUser {act : SidWriter.Call α} (both : Both U act act) :
    Both R (onUser act) (onUser act) :=
  .focus congruence.user (fun same part => congruence.withUser same part) both

theorem onSystem {act : SidWriter.Call α} (both : Both S act act) :
    Both R (onSystem act) (onSystem act) :=
  .focus congruence.system (fun same part => congruence.withSystem same part) both

theorem passes (request : SidRequest) :
    Both R (SessionWriter.onUser request.call) (SessionWriter.onUser request.call) :=
  congruence.onUser (congruence.users.call request)

theorem intern (text : String) : Both R (intern text) (intern text) := by
  intro w v same
  obtain ⟨-, grown⟩ := w.symbols.internText text
  have next : R { w with symbols := (w.symbols.intern text).2 }
      { v with symbols := (v.symbols.intern text).2 } := by
    rw [← congruence.symbols same]
    exact congruence.grown same grown
  exact ⟨by rw [congruence.symbols same], next⟩

theorem resolve (token : SymbolToken) : Both R (resolve token) (resolve token) := by
  obtain ⟨text, sid⟩ := token
  cases sid with
  | some sid => exact .pure sid
  | none =>
    cases text with
    | some text => exact congruence.intern text
    | none => exact .fails .emptyToken

theorem named {names : Call Nat} (both : Both R names names) (f : Nat → SidRequest) :
    Both R (names >>= fun sid => SessionWriter.onUser (f sid).call)
      (names >>= fun sid => SessionWriter.onUser (f sid).call) :=
  .bind both fun sid => congruence.passes (f sid)

theorem setField (name : String) : Both R (setField name) (setField name) := by
  refine .reading fun {w v} same => ?_
  rw [congruence.users.inStruct (congruence.user same)]
  split
  · exact congruence.named (congruence.intern name) .setField
  · exact congruence.passes (.setField 0)

theorem setAnnotations (texts : List String) : Both R (setAnnotations texts) (setAnnotations texts) :=
  .bind (.collect congruence.intern) fun sids => congruence.passes (.setAnnotations sids)

theorem undeclared (same : R w v) : w.undeclared = v.undeclared := by
  rw [SessionWriter.undeclared, SessionWriter.undeclared, congruence.symbols same,
    congruence.declared same]

theorem needsTable (same : R w v) : w.needsTable = v.needsTable := by
  rw [SessionWriter.needsTable, SessionWriter.needsTable, congruence.undeclared same,
    congruence.symbols same, congruence.tableWritten same]

theorem declare : Both R declareSymbols declareSymbols := by
  refine .reading fun {w v} same => ?_
  rw [congruence.tableWritten same, congruence.symbols same, congruence.undeclared same]
  refine .bind (congruence.onSystem (congruence.declares _ _ _)) fun _ => .change fun {w v} same => ?_
  have next := congruence.announced same w.symbols.locals.length true w.sessionOpen
  simpa only [congruence.symbols same, congruence.sessionOpen same] using next

theorem opens : Both R openSession openSession := by
  refine .reading fun {w v} same => ?_
  rw [congruence.sessionOpen same]
  split
  · refine .bind (congruence.onSystem congruence.marks) fun _ => .change fun {w v} same => ?_
    have next := congruence.announced same w.declared w.tableWritten true
    simpa only [congruence.declared same, congruence.tableWritten same] using next
  · exact .pure ()

theorem prepare : Both R prepare prepare := by
  rw [prepareParts]
  refine .bind (congruence.passes .checkFlushable) fun _ => .bind congruence.opens fun _ =>
    .reading fun {w v} same => ?_
  rw [congruence.needsTable same]
  split
  · exact congruence.declare
  · exact .pure ()

theorem flush : Both (SameSink R) flush flush := by
  have prepares : Both (SameSink R) (focus Prod.fst (fun w s => (w, s.2)) SessionWriter.prepare)
      (focus Prod.fst (fun w s => (w, s.2)) SessionWriter.prepare) :=
    .focus (fun same => same.1) (fun same part => ⟨part, same.2⟩) congruence.prepare
  have system : Both (SameSink R)
      (focus (fun s : SessionWriter × Sink => (s.1.system, s.2))
        (fun t s => ({ s.1 with system := t.1 }, t.2)) SidWriter.flush)
      (focus (fun s : SessionWriter × Sink => (s.1.system, s.2))
        (fun t s => ({ s.1 with system := t.1 }, t.2)) SidWriter.flush) :=
    .focus (fun same => ⟨congruence.system same.1, same.2⟩)
      (fun same part => ⟨congruence.withSystem same.1 part.1, part.2⟩) congruence.sends
  have user : Both (SameSink R)
      (focus (fun s : SessionWriter × Sink => (s.1.user, s.2))
        (fun t s => ({ s.1 with user := t.1 }, t.2)) SidWriter.flush)
      (focus (fun s : SessionWriter × Sink => (s.1.user, s.2))
        (fun t s => ({ s.1 with user := t.1 }, t.2)) SidWriter.flush) :=
    .focus (fun same => ⟨congruence.user same.1, same.2⟩)
      (fun same part => ⟨congruence.withUser same.1 part.1, part.2⟩) congruence.users.flushBoth
  have ends : Both (SameSink R)
      (focus Prod.snd (fun k s => (s.1, k)) (Sink.flush.adaptExcept IonError.output))
      (focus Prod.snd (fun k s => (s.1, k)) (Sink.flush.adaptExcept IonError.output)) :=
    .focus (fun same => same.2) (fun same part => ⟨same.1, part⟩) .same
  exact .bind prepares fun _ => .bind system fun first => .bind user fun second => .bind ends fun _ =>
    .pure (first + second)

theorem finish : Both (SameSink R) finish finish :=
  .bind congruence.flush fun written =>
    .bind (.change fun same => ⟨congruence.ended same.1, same.2⟩) fun _ => .pure written

theorem performs {w v : SessionWriter} {request : SessionRequest} (same : R w v)
    (kept : request ≠ .reset) :
    (w.perform request).1 = (v.perform request).1 ∧ R (w.perform request).2 (v.perform request).2 := by
  cases request with
  | setField name => exact Reply.ofCallAlike (congruence.setField name w v same)
  | setFieldToken token =>
    exact Reply.ofCallAlike (congruence.named (congruence.resolve token) .setField w v same)
  | annotate text =>
    exact Reply.ofCallAlike (congruence.named (congruence.intern text) .annotate w v same)
  | annotateToken token =>
    exact Reply.ofCallAlike (congruence.named (congruence.resolve token) .annotate w v same)
  | setAnnotations texts => exact Reply.ofCallAlike (congruence.setAnnotations texts w v same)
  | clearAnnotations =>
    exact ⟨rfl, congruence.withUser same (congruence.users.clearAnnotations (congruence.user same))⟩
  | stepIn type => exact Reply.ofCallAlike (congruence.passes (.stepIn type) w v same)
  | stepOut => exact Reply.ofCallAlike (congruence.passes .stepOut w v same)
  | write a => exact Reply.ofCallAlike (congruence.passes (.write a) w v same)
  | writeSymbol text =>
    exact Reply.ofCallAlike
      (congruence.named (congruence.intern text) (fun sid => .write (.symbol sid)) w v same)
  | writeSymbolToken token =>
    exact Reply.ofCallAlike
      (congruence.named (congruence.resolve token) (fun sid => .write (.symbol sid)) w v same)
  | flush sink => exact Reply.ofFlushAlike (congruence.flush (w, sink) (v, sink) ⟨same, rfl⟩)
  | finish sink => exact Reply.ofFlushAlike (congruence.finish (w, sink) (v, sink) ⟨same, rfl⟩)
  | reset => exact absurd rfl kept

end Congruence

end Ion.SessionWriter
