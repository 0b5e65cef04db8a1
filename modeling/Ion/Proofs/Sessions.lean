import Ion.Proofs.Names
import Ion.Proofs.Tables

/-! The calls of a session writer in terms of the two writers below it: a call with names is the call
with their IDs, and a flush is a flush of what it announces and one of the values. -/
namespace Ion

theorem focusRuns {get : σ → τ} {set : τ → σ → σ} {act : EStateM ε τ α} {s : σ} {a : α} {t : τ}
    (ok : act (get s) = .ok a t) : focus get set act s = .ok a (set t s) := by
  simp only [focus, ok]

theorem focusOk {get : σ → τ} {set : τ → σ → σ} {act : EStateM ε τ α} {s s' : σ} {a : α}
    (ok : focus get set act s = .ok a s') : ∃ t, act (get s) = .ok a t ∧ s' = set t s := by
  unfold focus at ok
  split at ok
  · rename_i t result
    cases ok
    exact ⟨t, result, rfl⟩
  · contradiction

theorem Reply.ofCallRuns {call : EStateM IonError σ Unit} {s s' : σ} (ok : call s = .ok () s') :
    ofCall call s = (done, s') := by
  simp only [ofCall, ok]

namespace SessionWriter

theorem internRuns (w : SessionWriter) (text : String) :
    intern text w =
      .ok ((Name.text text).resolve w.symbols).1
        { w with symbols := ((Name.text text).resolve w.symbols).2 } := rfl

theorem resolveRuns (w : SessionWriter) {token : SymbolToken} {name : Name}
    (given : token.name? = some name) :
    resolve token w = .ok (name.resolve w.symbols).1 { w with symbols := (name.resolve w.symbols).2 } := by
  obtain ⟨text, sid⟩ := token
  cases text <;> cases sid <;> cases given <;> rfl

theorem internAllRuns (w : SessionWriter) (texts : List String) :
    texts.mapM intern w =
      .ok (Name.resolveAll w.symbols (texts.map .text)).1
        { w with symbols := (Name.resolveAll w.symbols (texts.map .text)).2 } := by
  induction texts generalizing w with
  | nil => rfl
  | cons text rest ih =>
    rw [List.mapM_cons, bindRuns (w.internRuns text), bindRuns (ih _)]
    rfl

theorem setFieldInside {w w' : SidWriter} {sid : Nat} (ok : SidWriter.setField sid w = .ok () w') :
    w.inStruct = true := by
  unfold SidWriter.setField SidWriter.guarded at ok
  by_cases inside : w.inStruct
  · exact inside
  · simp only [inside] at ok
    split at ok <;> contradiction

theorem onUserRuns {w : SessionWriter} {call : SidWriter.Call α} {a : α} {user : SidWriter}
    (below : call w.user = .ok a user) : onUser call w = .ok a { w with user } := focusRuns below

theorem namedRuns {w : SessionWriter} {name : Name} {named : Call Nat} {f : Nat → SidRequest}
    {user : SidWriter} (names : named w = .ok (name.resolve w.symbols).1
      { w with symbols := (name.resolve w.symbols).2 })
    (below : (f (name.resolve w.symbols).1).call w.user = .ok () user) :
    (named >>= fun sid => onUser (f sid).call) w =
      .ok () { w with user, symbols := (name.resolve w.symbols).2 } := by
  rw [bindRuns names]
  exact onUserRuns below

theorem performsResolved {w : SessionWriter} {request : SessionRequest} {call : SidRequest}
    {t : SymbolTable} (resolved : request.resolve w.symbols = some (call, t))
    (done : (w.user.perform call).1 = .done) :
    w.perform request = (.done, { w with user := (w.user.perform call).2, symbols := t }) := by
  have below := SidRequest.callDone (SessionRequest.resolveKept resolved) done
  cases request with
  | setField text =>
    cases resolved
    have inside := setFieldInside below
    have runs := namedRuns (f := .setField) (w.internRuns text) below
    refine Reply.ofCallRuns (Eq.trans ?_ runs)
    have start : (get : Call SessionWriter) w = .ok w w := rfl
    rw [setField, bindRuns start, if_pos inside]
    rfl
  | setFieldToken token =>
    obtain ⟨name, known, same⟩ := Option.map_eq_some_iff.mp resolved
    cases same
    exact Reply.ofCallRuns (namedRuns (f := .setField) (w.resolveRuns known) below)
  | annotate text =>
    cases resolved
    exact Reply.ofCallRuns (namedRuns (f := .annotate) (w.internRuns text) below)
  | annotateToken token =>
    obtain ⟨name, known, same⟩ := Option.map_eq_some_iff.mp resolved
    cases same
    exact Reply.ofCallRuns (namedRuns (f := .annotate) (w.resolveRuns known) below)
  | setAnnotations texts =>
    cases resolved
    refine Reply.ofCallRuns ?_
    rw [setAnnotations, bindRuns (w.internAllRuns texts)]
    exact onUserRuns below
  | clearAnnotations =>
    cases resolved
    rfl
  | stepIn type =>
    cases resolved
    exact Reply.ofCallRuns (onUserRuns below)
  | stepOut =>
    cases resolved
    exact Reply.ofCallRuns (onUserRuns below)
  | write a =>
    cases resolved
    exact Reply.ofCallRuns (onUserRuns below)
  | writeSymbol text =>
    cases resolved
    exact Reply.ofCallRuns (namedRuns (f := fun sid => .write (.symbol sid)) (w.internRuns text) below)
  | writeSymbolToken token =>
    obtain ⟨name, known, same⟩ := Option.map_eq_some_iff.mp resolved
    cases same
    exact Reply.ofCallRuns (namedRuns (f := fun sid => .write (.symbol sid)) (w.resolveRuns known) below)
  | flush | finish | reset => contradiction

theorem runsResolved {w : SessionWriter} {requests : List SessionRequest} {calls : List SidRequest}
    {t : SymbolTable} (resolved : SessionRequest.Resolves w.symbols requests calls t) {user : SidWriter}
    (below : Calls.Runs SidWriter.perform w.user calls user) :
    Calls.Runs perform w requests { w with user, symbols := t } := by
  generalize start : w.symbols = s at resolved
  induction resolved generalizing w with
  | nothing =>
    obtain ⟨rfl, _⟩ := below
    subst start
    exact .nothing w
  | first one more ih =>
    obtain ⟨done, rest⟩ := below.begins
    subst start
    exact .first (performsResolved one done) (ih rest rfl)

end SessionWriter

theorem Represents.checks {w : SidWriter} {items : List Item}
    (same : Represents w ⟨items, [], none, [], false⟩) : SidWriter.checkFlushable w = .ok () w := by
  have ready : w.flushable = .ok () := same.flushable
  have healthy : w.poisoned = false := same.poisoned
  simp [SidWriter.checkFlushable, SidWriter.guarded, healthy, ready, Except.map]

theorem Represents.marks {w : SidWriter} {items : List Item}
    (same : Represents w ⟨items, [], none, [], false⟩) :
    ∃ w', SidWriter.writeVersionMarker w = .ok () w' ∧
      Represents w' ⟨items ++ [.versionMarker], [], none, [], false⟩ := by
  have done : Draft.perform ⟨items, [], none, [], false⟩ .writeVersionMarker =
      (.done, ⟨items ++ [.versionMarker], [], none, [], false⟩) := rfl
  have kept : SidRequest.writeVersionMarker ≠ .reset := nofun
  obtain ⟨replied, after⟩ := same.performs kept
  rw [done] at replied after
  exact ⟨_, SidRequest.callDone kept replied, after⟩

theorem Represents.declares {w : SidWriter} {items : List Item}
    (same : Represents w ⟨items, [], none, [], false⟩) (append : Bool) (imports : List Layer)
    (added : List (Option String)) :
    ∃ w', SessionWriter.writeTable append imports added w = .ok () w' ∧
      Represents w' ⟨items ++ [.value (TableTree.whole append imports added)], [], none, [], false⟩ := by
  have written := TableTree.written append imports added
  have accepted := Tree.acceptedAll [TableTree.whole append imports added]
    ⟨TableTree.formed append imports added, trivial⟩
  have runs := Draft.runsWritten written (d := ⟨items, [], none, [], false⟩) ⟨rfl, rfl, rfl⟩ rfl
    accepted
  rw [TableTree.tableScript]
  exact same.script written.noReset runs

namespace SessionWriter

def announcement (w : SessionWriter) : List Item :=
  (if w.sessionOpen then [] else [.versionMarker]) ++
    if w.needsTable then
      [.value (TableTree.whole w.tableWritten w.symbols.imports.added w.undeclared)]
    else []

def announced (w : SessionWriter) (system : SidWriter) : SessionWriter :=
  { w with
    system
    declared := w.symbols.locals.length
    tableWritten := w.tableWritten || w.needsTable
    sessionOpen := true }

def known (w : SessionWriter) : SymbolTable :=
  if w.tableWritten then { w.symbols with locals := w.symbols.locals.take w.declared } else .system

structure Steady (tables : List SharedTable) (w : SessionWriter) : Prop where
  imports : w.symbols.imports = .ofTables tables
  system : Represents w.system .empty
  declared : w.declared ≤ w.symbols.locals.length
  fresh : w.tableWritten = false → w.declared = 0
  closed : w.sessionOpen = false → w.tableWritten = false

def openSession : Call Unit := do
  if !(← get).sessionOpen then
    onSystem SidWriter.writeVersionMarker
    modify fun w => { w with sessionOpen := true }

def declareNeeded : Call Unit := do
  if (← get).needsTable then declareSymbols

theorem prepareParts :
    prepare = (do onUser SidWriter.checkFlushable; openSession; declareNeeded) := by
  funext w
  simp only [prepare, openSession, declareNeeded, bind, EStateM.bind]
  cases onUser SidWriter.checkFlushable w with
  | error e w => rfl
  | ok _ w =>
    have start : (get : Call SessionWriter) w = .ok w w := rfl
    simp only [start]
    cases w.sessionOpen
    · simp only [Bool.not_false, if_true, EStateM.bind]
      cases onSystem SidWriter.writeVersionMarker w <;> rfl
    · rfl

variable {tables : List SharedTable} {w : SessionWriter}

theorem opens {items : List Item} (same : Represents w.system ⟨items, [], none, [], false⟩) :
    ∃ system, openSession w = .ok () { w with system, sessionOpen := true } ∧
      Represents system
        ⟨items ++ if w.sessionOpen then [] else [.versionMarker], [], none, [], false⟩ := by
  cases started : w.sessionOpen with
  | true =>
    have stays : { w with system := w.system, sessionOpen := true } = w := by rw [← started]
    refine ⟨w.system, ?_, by simpa using same⟩
    have start : (get : Call SessionWriter) w = .ok w w := rfl
    rw [openSession, bindRuns start, started, stays]
    rfl
  | false =>
    obtain ⟨system, marks, next⟩ := same.marks
    refine ⟨system, ?_, next⟩
    have start : (get : Call SessionWriter) w = .ok w w := rfl
    rw [openSession, bindRuns start, started]
    exact bindRuns (focusRuns marks)

theorem prepares {items : List Item} (same : Represents w.system ⟨items, [], none, [], false⟩)
    (ready : SidWriter.checkFlushable w.user = .ok () w.user) :
    ∃ system, prepare w = .ok () { w.announced system with
        declared := if w.needsTable then w.symbols.locals.length else w.declared } ∧
      Represents system ⟨items ++ w.announcement, [], none, [], false⟩ := by
  obtain ⟨marked, opened, first⟩ := opens same
  have checks : onUser SidWriter.checkFlushable w = .ok () w := onUserRuns ready
  have start (v : SessionWriter) : (get : Call SessionWriter) v = .ok v v := rfl
  rw [prepareParts, bindRuns checks, bindRuns opened, declareNeeded, bindRuns (start _)]
  have needs : needsTable { w with system := marked, sessionOpen := true } = w.needsTable := rfl
  rw [needs, announcement, ← List.append_assoc]
  simp only [announced]
  cases needed : w.needsTable with
  | false =>
    refine ⟨marked, ?_, by simpa using first⟩
    rw [Bool.or_false]
    rfl
  | true =>
    obtain ⟨system, declares, second⟩ :=
      first.declares w.tableWritten w.symbols.imports.added w.undeclared
    refine ⟨system, ?_, second⟩
    rw [if_pos rfl, declareSymbols, bindRuns (start _), Bool.or_true]
    exact bindRuns (focusRuns declares)

theorem Steady.allDeclared (steady : w.Steady tables) (nothing : w.needsTable = false) :
    w.declared = w.symbols.locals.length := by
  simp only [needsTable, undeclared, Bool.or_eq_false_iff, Bool.not_eq_false', List.isEmpty_iff,
    List.drop_eq_nil_iff] at nothing
  have bounded := steady.declared
  omega

theorem Steady.prepares (steady : w.Steady tables)
    (ready : SidWriter.checkFlushable w.user = .ok () w.user) :
    ∃ system, prepare w = .ok () (w.announced system) ∧
      Represents system ⟨w.announcement, [], none, [], false⟩ := by
  have nothing : Represents w.system ⟨[], [], none, [], false⟩ := steady.system
  obtain ⟨system, runs, same⟩ := SessionWriter.prepares nothing ready
  have all : (if w.needsTable then w.symbols.locals.length else w.declared) = w.symbols.locals.length := by
    cases needed : w.needsTable with
    | false => exact steady.allDeclared needed
    | true => rfl
  rw [all] at runs
  exact ⟨system, runs, same⟩

theorem flushParts {sink after : Sink} {count : Nat} {w' : SessionWriter}
    (ok : flush (w, sink) = .ok count (w', after)) :
    ∃ v system user middle first second, prepare w = .ok () v ∧
      SidWriter.flush (v.system, sink) = .ok first (system, middle) ∧
      SidWriter.flush (v.user, middle) = .ok second (user, after) ∧ w' = { v with system, user } := by
  obtain ⟨_, _, zero, ok⟩ := bindOk ok
  obtain ⟨v, prepares, rfl⟩ := focusOk zero
  obtain ⟨first, _, one, ok⟩ := bindOk ok
  obtain ⟨⟨system, middle⟩, sent, rfl⟩ := focusOk one
  obtain ⟨second, _, two, ok⟩ := bindOk ok
  obtain ⟨⟨user, last⟩, sent', rfl⟩ := focusOk two
  obtain ⟨_, _, three, ok⟩ := bindOk ok
  obtain ⟨sink', flushed, rfl⟩ := focusOk three
  cases ok
  have same : after = last := by
    unfold EStateM.adaptExcept Sink.flush at flushed
    by_cases fails : last.failsFlush <;> simp [fails] at flushed
    exact flushed.symm
  rw [same]
  exact ⟨v, system, user, middle, first, second, prepares, sent, sent', rfl⟩

theorem finishRuns {sink after : Sink} {count : Nat} {w' : SessionWriter}
    (flushed : flush (w, sink) = .ok count (w', after)) :
    finish (w, sink) = .ok count (w'.endSession, after) := by
  rw [finish, bindRuns flushed]
  rfl

theorem Steady.flushed (steady : w.Steady tables) {items : List Item}
    (user : Represents w.user ⟨items, [], none, [], false⟩) {sink after : Sink} {count : Nat}
    {w' : SessionWriter} (ok : flush (w, sink) = .ok count (w', after)) :
    ∃ system user head body, w' = { w.announced system with user } ∧ Represents system .empty ∧
      Represents user .empty ∧ Item.encodeAll? w.announcement = .ok head ∧
        Item.encodeAll? items = .ok body ∧ after.received = sink.received ++ (head ++ body) := by
  obtain ⟨system, prepares, announced⟩ := steady.prepares user.checks
  obtain ⟨v, system', user', middle, _, _, prepared, sent, sent', rfl⟩ := flushParts ok
  cases prepares.symm.trans prepared
  obtain ⟨head, encoded, _, received, empty⟩ := announced.flushed sent
  obtain ⟨body, encoded', _, received', empty'⟩ := user.flushed sent'
  refine ⟨system', user', head, body, rfl, empty, empty', encoded, encoded', ?_⟩
  rw [received', received, List.append_assoc]

theorem Steady.sends (steady : w.Steady tables) (ready : SidWriter.checkFlushable w.user = .ok () w.user)
    (received : Bytes) :
    ∃ head, Item.encodeAll? w.announcement = .ok head ∧
      ∀ {count user last}, SidWriter.flush (w.user, ⟨none, false, received ++ head⟩) =
          .ok count (user, ⟨none, false, last⟩) →
        ∃ s, flush (w, ⟨none, false, received⟩) = .ok (head.length + count) s := by
  obtain ⟨system, prepares, announced⟩ := steady.prepares ready
  obtain ⟨head, encoded⟩ := announced.encodable rfl
  obtain ⟨system', sent⟩ :
      ∃ system', SidWriter.flush ((w.announced system).system, ⟨none, false, received⟩) =
        .ok head.length (system', ⟨none, false, received ++ head⟩) :=
    announced.flushes rfl rfl encoded rfl
  refine ⟨head, encoded, ?_⟩
  intro count user last sent'
  have below : SidWriter.flush ((w.announced system).user, ⟨none, false, received ++ head⟩) =
      .ok count (user, ⟨none, false, last⟩) := sent'
  simp only [flush, bind, EStateM.bind, focus, prepares, sent, below]
  exact ⟨_, rfl⟩

theorem Steady.flushes (steady : w.Steady tables) {items : List Item}
    (user : Represents w.user ⟨items, [], none, [], false⟩) (received : Bytes) :
    ∃ count s, flush (w, ⟨none, false, received⟩) = .ok count s := by
  obtain ⟨head, -, sends⟩ := steady.sends user.checks received
  obtain ⟨body, encoded⟩ := user.encodable rfl
  obtain ⟨user', sent⟩ :
      ∃ user', SidWriter.flush (w.user, ⟨none, false, received ++ head⟩) =
        .ok body.length (user', ⟨none, false, received ++ head ++ body⟩) :=
    user.flushes rfl rfl encoded rfl
  obtain ⟨s, ok⟩ := sends sent
  exact ⟨_, s, ok⟩

theorem Steady.declaredBase (steady : w.Steady tables) :
    { TableTree.base w.tableWritten (.ofTables tables) w.known with
      locals := (TableTree.base w.tableWritten (.ofTables tables) w.known).locals ++ w.undeclared } =
        w.symbols := by
  rw [TableTree.base, known, SessionWriter.undeclared]
  cases written : w.tableWritten with
  | true => simp [List.take_append_drop]
  | false => simp [steady.fresh written, SymbolTable.ofImports, ← steady.imports]

theorem Steady.knownAll (steady : w.Steady tables) (nothing : w.needsTable = false) :
    w.known = w.symbols := by
  have all := steady.allDeclared nothing
  simp only [needsTable, SessionWriter.undeclared, Bool.or_eq_false_iff, Bool.and_eq_false_imp,
    Bool.not_eq_eq_eq_not, Bool.not_true, Bool.not_false, List.isEmpty_iff] at nothing
  rw [known]
  cases written : w.tableWritten with
  | true => simp [all]
  | false =>
    have noLocals : w.symbols.locals = [] := by
      rw [← List.length_eq_zero_iff, ← all, steady.fresh written]
    have noImports : w.symbols.imports.added = [] := nothing.1 written
    have same : w.symbols.imports = .system := by
      rw [Imports.system, ← noImports]
    rw [if_neg Bool.false_ne_true, SymbolTable.system, SymbolTable.ofImports, ← same, ← noLocals]

theorem Steady.announces (steady : w.Steady tables) {catalog : Catalog}
    (importable : ∀ t ∈ tables, t.Importable catalog) (chain : (Imports.ofTables tables).maxId < Sid.last)
    (room : w.symbols.maxId ≤ Sid.last) {last : SymbolTable}
    (reader : w.sessionOpen = true → last = w.known) :
    Surfaces catalog last w.announcement [] w.symbols := by
  have table : Surfaces catalog w.known
      (if w.needsTable then
        [.value (TableTree.whole w.tableWritten w.symbols.imports.added w.undeclared)] else [])
      [] w.symbols := by
    cases needed : w.needsTable with
    | false =>
      rw [steady.knownAll needed]
      exact .done
    | true =>
      have same := steady.declaredBase
      have fits : (TableTree.base w.tableWritten (.ofTables tables) w.known).maxId + w.undeclared.length ≤
          Sid.last := by
        rw [← same] at room
        simpa [SymbolTable.maxId, Nat.add_assoc] using room
      refine .table (TableTree.formed _ _ _) (TableTree.isTable _ _ _) (fun is => ?_) .done
      rw [steady.imports] at is
      rw [TableTree.loads importable chain fits is, same]
  rw [announcement]
  cases started : w.sessionOpen with
  | true =>
    rw [reader started]
    exact table
  | false =>
    have fresh : w.known = .system := by
      rw [known, steady.closed started]
      rfl
    rw [fresh] at table
    exact .marker table

theorem Steady.empty (blockSize : Nat) (tables : List SharedTable) :
    (SessionWriter.empty blockSize tables).Steady tables :=
  ⟨rfl, .empty blockSize, Nat.zero_le _, fun _ => rfl, fun _ => rfl⟩

theorem Steady.grown (steady : w.Steady tables) {t : SymbolTable} (grown : w.symbols.Extends t)
    (user : SidWriter) : Steady tables { w with user, symbols := t } :=
  ⟨grown.imports.trans steady.imports, steady.system,
    Nat.le_trans steady.declared grown.locals.length_le, steady.fresh, steady.closed⟩

theorem Steady.sent (steady : w.Steady tables) {system : SidWriter} (empty : Represents system .empty)
    (user : SidWriter) : Steady tables { w.announced system with user } := by
  refine ⟨steady.imports, empty, Nat.le_refl _, fun unwritten => ?_, nofun⟩
  obtain ⟨unwritten, unneeded⟩ := Bool.or_eq_false_iff.mp unwritten
  have all := steady.allDeclared unneeded
  exact all.symm.trans (steady.fresh unwritten)

theorem Steady.ended (steady : w.Steady tables) : w.endSession.Steady tables :=
  ⟨steady.imports, steady.system, Nat.zero_le _, fun _ => rfl, fun _ => rfl⟩

theorem Steady.knownGrown (steady : w.Steady tables) {t : SymbolTable} (grown : w.symbols.Extends t)
    (user : SidWriter) : known { w with user, symbols := t } = w.known := by
  obtain ⟨more, same⟩ := grown.locals
  simp only [known, grown.imports, ← same, List.take_append_of_le_length steady.declared]

theorem Steady.knownSent (steady : w.Steady tables) (system user : SidWriter) :
    known { w.announced system with user } = w.symbols := by
  cases needed : w.needsTable with
  | true => simp [known, announced, needed]
  | false =>
    have all := steady.knownAll needed
    rw [known, steady.allDeclared needed] at all
    simpa [known, announced, needed] using all

end SessionWriter

end Ion
