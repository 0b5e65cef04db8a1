import Ion.Proofs.SessionRoundTrip
import Ion.Proofs.SidRanges
import Ion.Proofs.StraySymbols
import Ion.Proofs.WordRuns
import Ion.WordSession

/-! Sessions with symbols in words, beside the same sessions on numbers. They go on alike until a text needs a
symbol ID behind the greatest one, so what they have sent is read back. -/
namespace Ion

open Word

theorem WordSymbols.Spells.viewSame {w u : WordSymbols} {t : SymbolTable} (spells : u.Spells t)
    (kept : u.imports = w.imports) (imports : t.imports = w.view.imports) : u.view = t := by
  obtain ⟨⟨added⟩, locals⟩ := t
  have same : u.locals = locals := spells.locals
  rw [view, kept, same]
  exact congrArg (SymbolTable.mk · locals) imports.symm

namespace SessionRequest

theorem resolveGrows {t t' : SymbolTable} {request : SessionRequest} {call : SidRequest}
    (resolved : request.resolve t = some (call, t')) : t.Extends t' := by
  cases request with
  | setField text | annotate text | writeSymbol text =>
    cases resolved
    exact ((Name.text text).resolveRead t).1
  | setFieldToken token | annotateToken token | writeSymbolToken token =>
    obtain ⟨name, -, same⟩ := Option.map_eq_some_iff.mp resolved
    cases same
    exact (name.resolveRead t).1
  | setAnnotations texts =>
    cases resolved
    exact (Name.resolveAllRead t (texts.map .text)).1
  | clearAnnotations | stepIn type | stepOut | write a =>
    cases resolved
    exact .refl t
  | flush | finish | reset => contradiction

theorem Resolves.grows {t t' : SymbolTable} {requests : List SessionRequest} {calls : List SidRequest}
    (resolved : Resolves t requests calls t') : t.Extends t' := by
  induction resolved with
  | nothing => exact .refl _
  | first one more ih => exact (resolveGrows one).trans ih

end SessionRequest

namespace WordSession

def Spelled (w : WordSession) : Prop := w.symbols.Spells w.symbols.view

variable {w w' : WordSession}

section Naming

variable {α : Type} {named : Call α} {texts : List String} {a : α}

def Names (w : WordSession) (named : Call α) (texts : List String) (a : α) : Prop :=
  let t := w.symbols.view.after (texts.map .intern)
  if t.maxId ≤ Sid.last then
    ∃ symbols, named w = .ok a { w with symbols } ∧ symbols.Spells t ∧ symbols.view = t
  else ∃ w', named w = .error .overflow w'

theorem namesNothing (spelled : w.Spelled) (a : α) : w.Names (pure a) [] a := by
  unfold Names
  rw [List.map_nil]
  exact if_pos spelled.room ▸ ⟨w.symbols, rfl, spelled, rfl⟩

theorem namesText (spelled : w.Spelled) (text : String) :
    w.Names (intern text) [text] (w.symbols.view.intern text).1 := by
  have performs := WordSymbols.Spells.performs spelled (.intern text)
  have after : w.symbols.view.after ([text].map .intern) = (w.symbols.view.perform (.intern text)).2 := rfl
  unfold Names
  rw [after]
  by_cases fits : (w.symbols.view.perform (.intern text)).2.maxId ≤ Sid.last
  · rw [if_pos fits] at performs ⊢
    obtain ⟨symbols, here, spells⟩ := performs
    have interned : w.symbols.intern text = .ok (.ofNat (w.symbols.view.intern text).1, symbols) := here
    have small : (w.symbols.view.intern text).1 ≤ Sid.last :=
      (SymbolTable.textBound (SymbolTable.findText (w.symbols.view.internFinds text))).trans fits
    refine ⟨symbols, ?_, spells, spells.viewSame (WordSymbols.performImports here) ?_⟩
    · simp only [intern, interned, toNatOf small]
    · exact (w.symbols.view.performExtends (.intern text)).imports
  · rw [if_neg fits] at performs ⊢
    have stops : w.symbols.intern text = .error .overflow := performs.1
    exact ⟨w, by simp only [intern, stops]; rfl⟩

theorem namesToken (spelled : w.Spelled) {token : SymbolToken} {name : Name} (given : token.name? = some name) :
    w.Names (resolve token) token.interned (name.resolve w.symbols.view).1 := by
  obtain ⟨text, sid⟩ := token
  cases text <;> cases sid <;> cases given
  · exact namesNothing spelled _
  · exact namesText spelled _

theorem namesAll (spelled : w.Spelled) (texts : List String) :
    w.Names (texts.mapM intern) texts (Name.resolveAll w.symbols.view (texts.map .text)).1 := by
  induction texts generalizing w with
  | nil => exact namesNothing spelled []
  | cons text rest ih =>
    have first := namesText spelled text
    have after : w.symbols.view.after ((text :: rest).map .intern) =
        (w.symbols.view.intern text).2.after (rest.map .intern) := rfl
    have one : w.symbols.view.after ([text].map .intern) = (w.symbols.view.intern text).2 := rfl
    unfold Names at first ih ⊢
    rw [one] at first
    rw [after, List.mapM_cons]
    by_cases fits : (w.symbols.view.intern text).2.maxId ≤ Sid.last
    · rw [if_pos fits] at first
      obtain ⟨symbols, here, spells, view⟩ := first
      have later := ih (w := { w with symbols }) (view ▸ spells : symbols.Spells symbols.view)
      dsimp only at later
      rw [view] at later
      rw [bindRuns here]
      by_cases allFit : ((w.symbols.view.intern text).2.after (rest.map .intern)).maxId ≤ Sid.last
      · rw [if_pos allFit] at later ⊢
        obtain ⟨symbols', more, spells', view'⟩ := later
        rw [bindRuns more]
        exact ⟨symbols', rfl, spells', view'⟩
      · rw [if_neg allFit] at later ⊢
        obtain ⟨w', stops⟩ := later
        exact ⟨w', by simp only [bind, EStateM.bind, stops]⟩
    · rw [if_neg fits] at first
      obtain ⟨w', stops⟩ := first
      have grown := ((w.symbols.view.intern text).2.afterExtends (rest.map .intern)).maxId
      rw [if_neg (by omega)]
      exact ⟨w', by simp only [bind, EStateM.bind, stops]⟩

end Naming

def ofCall (call : Call Unit) (w : WordSession) : Checked (Reply × WordSession) :=
  match call w with
  | .ok _ w => .ok (.done, w)
  | .error (.refused cause) w => .ok (.failed cause, w)
  | .error stop _ => .error stop

def ofFlush (call : EStateM Trap (WordSession × Sink) Nat) (sink : Sink) (w : WordSession) :
    Checked (Reply × WordSession) :=
  match call (w, sink) with
  | .ok n (w, sink) => .ok (.flushed n sink, w)
  | .error (.refused cause) (w, sink) => .ok (.flushFailed cause sink, w)
  | .error stop _ => .error stop

def perform (w : WordSession) : SessionRequest → Checked (Reply × WordSession)
  | .setField name => ofCall (setField name) w
  | .setFieldToken token => ofCall (setFieldToken token) w
  | .annotate text => ofCall (WordSession.addAnnotation text) w
  | .annotateToken token => ofCall (WordSession.addAnnotationToken token) w
  | .setAnnotations texts => ofCall (setAnnotations texts) w
  | .clearAnnotations => .ok (.done, w.clearAnnotations)
  | .stepIn type => ofCall (onUser (SidWriter.stepIn type)) w
  | .stepOut => ofCall (onUser SidWriter.stepOut) w
  | .write a => ofCall (onUser (SidWriter.write a)) w
  | .writeSymbol text => ofCall (writeSymbol text) w
  | .writeSymbolToken token => ofCall (writeSymbolToken token) w
  | .flush sink => ofFlush flush sink w
  | .finish sink => ofFlush finish sink w
  | .reset => .ok (.done, w.reset)

def run (w : WordSession) : List SessionRequest → Checked (List Reply × WordSession)
  | [] => .ok ([], w)
  | request :: rest => do
    let (reply, w) ← w.perform request
    let (replies, w) ← w.run rest
    return (reply :: replies, w)

def Exhausts (w : WordSession) (calls : List SessionRequest) : Prop :=
  ∃ front call rest replies w', calls = front ++ call :: rest ∧ w.run front = .ok (replies, w') ∧
    w'.symbols.Exhausts ((call.interned w'.user.inStruct).map .intern)

theorem onUserRuns {call : SidWriter.Call α} {a : α} {user : SidWriter} (below : call w.user = .ok a user) :
    onUser call w = .ok a { w with user } := by
  have runs : SessionWriter.onUser call w.view = .ok a { w.view with user } := SessionWriter.onUserRuns below
  simp only [onUser, plain, EStateM.adaptExcept, focus, runs]
  rfl

theorem onUserDone {call : SidWriter.Call Unit} {user : SidWriter} (below : call w.user = .ok () user) :
    ofCall (onUser call) w = .ok (.done, { w with user }) := by
  simp only [ofCall, onUserRuns below]

def Does (w : WordSession) (request : SessionRequest) (user : SidWriter) (t : SymbolTable) : Prop :=
  if t.maxId ≤ Sid.last then
    ∃ symbols, w.perform request = .ok (.done, { w with user, symbols }) ∧ symbols.Spells t ∧ symbols.view = t
  else w.perform request = .error .overflow ∧
    w.symbols.Exhausts ((request.interned w.user.inStruct).map .intern)

theorem Names.asked {named : Call α} {texts : List String} {a : α} (names : w.Names named texts a)
    {below : α → SidWriter.Call Unit} {user : SidWriter} (ok : below a w.user = .ok () user) :
    let t := w.symbols.view.after (texts.map .intern)
    if t.maxId ≤ Sid.last then
      ∃ symbols, ofCall (named >>= fun a => onUser (below a)) w = .ok (.done, { w with user, symbols }) ∧
        symbols.Spells t ∧ symbols.view = t
    else ofCall (named >>= fun a => onUser (below a)) w = .error .overflow := by
  intro t
  unfold Names at names
  by_cases fits : t.maxId ≤ Sid.last
  · rw [if_pos fits] at names ⊢
    obtain ⟨symbols, here, spells, view⟩ := names
    have runs := onUserRuns (w := { w with symbols }) ok
    exact ⟨symbols, by simp only [ofCall, bindRuns here, runs], spells, view⟩
  · rw [if_neg fits] at names ⊢
    obtain ⟨w', stops⟩ := names
    simp only [ofCall, bind, EStateM.bind, stops]

theorem ofCallSame {call call' : Call Unit} (same : call w = call' w) : ofCall call w = ofCall call' w := by
  simp only [ofCall, same]

theorem Names.does (spelled : w.Spelled) {named : Call α} {texts : List String} {a : α}
    (names : w.Names named texts a) {request : SessionRequest}
    (interned : request.interned w.user.inStruct = texts)
    {below : α → SidWriter.Call Unit}
    (performs : w.perform request = ofCall (named >>= fun a => onUser (below a)) w) {user : SidWriter}
    (ok : below a w.user = .ok () user) {t : SymbolTable} (after : w.symbols.view.after (texts.map .intern) = t) :
    w.Does request user t := by
  have asked := names.asked ok
  have runs := WordSymbols.Spells.runs spelled (texts.map .intern)
  subst after
  unfold Does
  rw [performs, interned]
  by_cases fits : (w.symbols.view.after (texts.map .intern)).maxId ≤ Sid.last
  · dsimp only at asked
    rw [if_pos fits] at asked ⊢
    exact asked
  · dsimp only at asked
    rw [if_neg fits] at runs asked ⊢
    exact ⟨asked, runs.2⟩

theorem doesPlain (spelled : w.Spelled) {request : SessionRequest} {user : SidWriter}
    (performs : w.perform request = .ok (.done, { w with user })) : w.Does request user w.symbols.view :=
  (if_pos spelled.room).mpr ⟨w.symbols, performs, spelled, rfl⟩

theorem tokenAfter {t : SymbolTable} {token : SymbolToken} {name : Name} (given : token.name? = some name) :
    t.after (token.interned.map .intern) = (name.resolve t).2 := by
  obtain ⟨text, sid⟩ := token
  cases text <;> cases sid <;> cases given <;> rfl

theorem performsResolved (spelled : w.Spelled) {request : SessionRequest} {call : SidRequest} {t : SymbolTable}
    (resolved : request.resolve w.symbols.view = some (call, t)) (done : (w.user.perform call).1 = .done) :
    w.Does request (w.user.perform call).2 t := by
  have below := SidRequest.callDone (SessionRequest.resolveKept resolved) done
  cases request with
  | setField text =>
    cases resolved
    have inside := SessionWriter.setFieldInside below
    have interned : SessionRequest.interned w.user.inStruct (.setField text) = [text] := if_pos inside
    have performs : w.perform (.setField text) =
        ofCall (intern text >>= fun sid => onUser (SidWriter.setField sid)) w := by
      have start : (get : Call WordSession) w = .ok w w := rfl
      refine ofCallSame ?_
      rw [setField, bindRuns start, if_pos inside]
    exact (namesText spelled text).does spelled interned performs below rfl
  | setFieldToken token =>
    obtain ⟨name, known, same⟩ := Option.map_eq_some_iff.mp resolved
    cases same
    exact (namesToken spelled known).does spelled rfl rfl below (tokenAfter known)
  | annotate text =>
    cases resolved
    exact (namesText spelled text).does spelled rfl rfl below rfl
  | annotateToken token =>
    obtain ⟨name, known, same⟩ := Option.map_eq_some_iff.mp resolved
    cases same
    exact (namesToken spelled known).does spelled rfl rfl below (tokenAfter known)
  | setAnnotations texts =>
    cases resolved
    exact (namesAll spelled texts).does spelled rfl rfl below (Name.resolveAllInterns _ texts).symm
  | clearAnnotations =>
    cases resolved
    exact doesPlain spelled rfl
  | stepIn type =>
    cases resolved
    exact doesPlain spelled (onUserDone below)
  | stepOut =>
    cases resolved
    exact doesPlain spelled (onUserDone below)
  | write a =>
    cases resolved
    exact doesPlain spelled (onUserDone below)
  | writeSymbol text =>
    cases resolved
    exact (namesText spelled text).does spelled rfl rfl below rfl
  | writeSymbolToken token =>
    obtain ⟨name, known, same⟩ := Option.map_eq_some_iff.mp resolved
    cases same
    exact (namesToken spelled known).does spelled rfl rfl below (tokenAfter known)
  | flush | finish | reset => contradiction

theorem runsResolved (spelled : w.Spelled) {requests : List SessionRequest} {calls : List SidRequest}
    {t : SymbolTable} (resolved : SessionRequest.Resolves w.symbols.view requests calls t) {user : SidWriter}
    (below : Calls.Runs SidWriter.perform w.user calls user) :
    if t.maxId ≤ Sid.last then
      ∃ symbols, w.run requests = .ok (List.replicate requests.length .done, { w with user, symbols }) ∧
        symbols.Spells t ∧ symbols.view = t
    else w.run requests = .error .overflow ∧ w.Exhausts requests := by
  generalize start : w.symbols.view = s at resolved
  induction resolved generalizing w with
  | nothing =>
    obtain ⟨rfl, _⟩ := below
    subst start
    exact (if_pos spelled.room).mpr ⟨w.symbols, rfl, spelled, rfl⟩
  | @first s s' t request call rest calls one more ih =>
    obtain ⟨done, later⟩ := below.begins
    subst start
    have first := performsResolved spelled one done
    have grown := (more.grows).maxId
    unfold Does at first
    by_cases fits : s'.maxId ≤ Sid.last
    · rw [if_pos fits] at first
      obtain ⟨symbols, here, spells, rfl⟩ := first
      have others := ih (w := { w with user := (w.user.perform call).2, symbols }) spells later rfl
      by_cases allFit : t.maxId ≤ Sid.last
      · rw [if_pos allFit] at others ⊢
        obtain ⟨symbols', ran, spells', view'⟩ := others
        exact ⟨symbols', by simp only [run, here, bind, Except.bind, ran]; rfl, spells', view'⟩
      · rw [if_neg allFit] at others ⊢
        obtain ⟨stops, front, last, behind, replies, w', rfl, ran, exhausts⟩ := others
        refine ⟨by simp only [run, here, bind, Except.bind, stops], request :: front, last, behind,
          .done :: replies, w', rfl, ?_, exhausts⟩
        simp only [run, here, bind, Except.bind, ran]
        rfl
    · rw [if_neg fits] at first
      obtain ⟨stops, exhausts⟩ := first
      rw [if_neg (by omega)]
      exact ⟨by simp only [run, stops, bind, Except.bind], [], request, rest, [], w, rfl, rfl, exhausts⟩

end WordSession

namespace WordChain

theorem pushedImported {c c' : WordChain} {t : IndexedTable} {length : UInt32} (version : t.version ≤ Sid.last)
    (maxId : t.maxId ≤ Sid.last) (pushed : c.push (.of t) length = .ok c') :
    c'.imported = c.imported ++ [declared (t, length)] := by
  obtain ⟨last, -, rest⟩ := exceptOk pushed
  obtain ⟨offset, -, ⟨⟩⟩ := exceptOk rest
  simp only [imported, WordTable.of, toNatOf version, toNatOf maxId, declared]

theorem builtImported {tables : List (IndexedTable × UInt32)} {c : WordChain}
    (counted : ∀ table ∈ tables, table.1.version ≤ Sid.last ∧ table.1.maxId ≤ Sid.last)
    (built : build tables = .ok c) : c.imported = tables.map declared := by
  suffices all : ∀ {c c' : WordChain},
      tables.foldlM (fun chain table => chain.push (.of table.1) table.2) c = .ok c' →
        c'.imported = c.imported ++ tables.map declared from all built
  clear built
  induction tables with
  | nil =>
    intro c c' same
    cases same
    exact (List.append_nil _).symm
  | cons table rest ih =>
    intro c c' built
    obtain ⟨middle, pushed, later⟩ := exceptOk built
    obtain ⟨version, maxId⟩ := counted table (.head _)
    have others := ih (fun other mem => counted other (.tail _ mem)) later
    rw [others, pushedImported version maxId pushed, List.append_assoc]
    rfl

end WordChain

def IndexedTable.plain (tables : List IndexedTable) : List SharedTable := tables.map (·.toSharedTable)

namespace WordSession

variable {w w' opened : WordSession} {blockSize : Nat} {tables : List IndexedTable} {catalog : Catalog}
  {last : UInt32}

theorem buildOver {chain : WordChain}
    (built : WordChain.build (tables.map fun t => (t, .ofNat t.maxId)) = .ok chain) :
    build blockSize tables = .ok ⟨.empty blockSize, .empty blockSize, .ofImports chain, 0, false, false⟩ := by
  simp only [build, built, bind, Except.bind]
  rfl

theorem builtSpelled (counted : catalog.Counted) (importable : ∀ t ∈ tables, t.toSharedTable.Importable catalog)
    (built : build blockSize tables = .ok w) (range : w.symbols.imports.maxId = .ok last) :
    w.Spelled ∧ w.view = .empty blockSize (IndexedTable.plain tables) := by
  obtain ⟨chain, chained, ⟨⟩⟩ := exceptOk built
  have small : ∀ t ∈ tables, t.slots.length ≤ Sid.last ∧ t.maxId ≤ Sid.last := fun t mem =>
    counted.version (importable t mem).known
  have wholes : (tables.map fun t => (t, UInt32.ofNat t.maxId)).map WordChain.declared =
      (IndexedTable.plain tables).map .whole := by
    rw [IndexedTable.plain, List.map_map, List.map_map]
    refine List.map_congr_left fun t mem => ?_
    simp only [Function.comp, WordChain.declared, toNatOf (small t mem).2]
    rfl
  have spells := WordChain.buildSpells (by simpa using fun t mem => (small t mem).1) chained range
  have imported := WordChain.builtImported (by
    simpa using fun t mem => ⟨(importable t mem).version.2, (small t mem).2⟩) chained
  rw [wholes] at spells imported
  have view : (WordSymbols.ofImports chain).view = .ofImports (.ofTables (IndexedTable.plain tables)) :=
    congrArg (fun added => SymbolTable.mk ⟨added⟩ []) imported
  refine ⟨?_, congrArg (SessionWriter.mk _ _ · 0 false false) view⟩
  unfold Spelled
  dsimp only
  rw [view]
  exact .ofImports spells

/-- The runs of a writer that is given whole values and flushes them to one sink, as long as no text needs a
symbol ID behind the greatest. -/
inductive Run (opened : WordSession) :
    WordSession → Sink → List (List Given × WordSymbols) → List Given → Prop
  | start {sink} (fresh : sink.received = []) : Run opened opened sink [] []
  | values {w w' sink sent waiting values calls replies} (earlier : Run opened w sink sent waiting)
      (formed : Given.WellFormedAll false values) (plain : ∀ g ∈ values, g.isTable = false)
      (written : Given.Written false values calls) (ran : w.run calls = .ok (replies, w')) :
      Run opened w' sink sent (waiting ++ values)
  | flush {w w' sink sink' sent waiting count} (earlier : Run opened w sink sent waiting)
      (ok : w.perform (.flush sink) = .ok (.flushed count sink', w')) :
      Run opened w' sink' (sent ++ [(waiting, w.symbols)]) []
  | finish {w w' sink sink' sent waiting count} (earlier : Run opened w sink sent waiting)
      (ok : w.perform (.finish sink) = .ok (.flushed count sink', w')) :
      Run opened w' sink' (sent ++ [(waiting, w.symbols)]) []

theorem flushRuns {s : WordSession × Sink} {v : SessionWriter × Sink} {count : Nat} :
    SessionWriter.flush (s.1.view, s.2) = .ok count v → flush s = .ok count (s.1.put v.1, v.2) := by
  intro flushes
  simp only [flush, EStateM.adaptExcept, focus, flushes]

theorem flushOk {s s' : WordSession × Sink} {count : Nat} (ok : flush s = .ok count s') :
    ∃ v, SessionWriter.flush (s.1.view, s.2) = .ok count v ∧ s' = (s.1.put v.1, v.2) := by
  cases flushes : SessionWriter.flush (s.1.view, s.2) with
  | ok n v =>
    rw [flushRuns flushes] at ok
    cases ok
    exact ⟨v, rfl, rfl⟩
  | error e v =>
    simp only [flush, EStateM.adaptExcept, focus, flushes] at ok
    contradiction

theorem ofFlushOk {call : EStateM Trap (WordSession × Sink) Nat} {sink sink' : Sink} {count : Nat}
    (ok : ofFlush call sink w = .ok (.flushed count sink', w')) : call (w, sink) = .ok count (w', sink') := by
  unfold ofFlush at ok
  split at ok
  · rename_i ended
    cases ok
    exact ended
  · cases ok
  · cases ok

theorem putView {v : SessionWriter} (same : v.symbols = w.symbols.view) : (w.put v).view = v := by
  obtain ⟨user, system, symbols, declared, tableWritten, sessionOpen⟩ := v
  cases same
  rfl

structure Follows (blockSize : Nat) (tables : List IndexedTable) (w : WordSession) (sink : Sink)
    (sent : List (List Given × WordSymbols)) (waiting : List Given)
    (sent' : List (List Given × SymbolTable)) : Prop where
  spelled : w.Spelled
  session : Session blockSize (IndexedTable.plain tables) w.view sink sent' waiting
  sent : List.Forall₂ (fun flush flush' => flush.1 = flush'.1 ∧ flush.2.Spells flush'.2) sent sent'

section Session

variable {sink sink' : Sink} {sent : List (List Given × WordSymbols)} {sent' : List (List Given × SymbolTable)}
  {waiting : List Given}

theorem Follows.values (importable : ∀ t ∈ IndexedTable.plain tables, t.Importable catalog)
    (chain : (Imports.ofTables (IndexedTable.plain tables)).maxId < Sid.last)
    (follows : Follows blockSize tables w sink sent waiting sent') {values : List Given}
    (formed : Given.WellFormedAll false values) {calls : List SessionRequest}
    (written : Given.Written false values calls) :
    (∃ symbols user, w.run calls = .ok (List.replicate calls.length .done, { w with user, symbols }) ∧
      ((∀ g ∈ values, g.isTable = false) →
        Follows blockSize tables { w with user, symbols } sink sent (waiting ++ values) sent')) ∨
      w.run calls = .error .overflow ∧ w.Exhausts calls := by
  obtain ⟨trees, holds⟩ := (follows.session.invariant importable chain).holds
  obtain ⟨user, t, more, runs, grown, after, below, resolved, belowRuns⟩ := holds.writes formed written
  have words := runsResolved follows.spelled resolved belowRuns
  split at words
  · obtain ⟨symbols, ran, spells, rfl⟩ := words
    refine .inl ⟨symbols, user, ran, fun plain => ⟨spells, ?_, follows.sent⟩⟩
    have session := follows.session.values formed plain written
    rwa [runs.1] at session
  · exact .inr words

theorem Follows.flushed (importable : ∀ t ∈ IndexedTable.plain tables, t.Importable catalog)
    (chain : (Imports.ofTables (IndexedTable.plain tables)).maxId < Sid.last)
    (follows : Follows blockSize tables w sink sent waiting sent') {count : Nat}
    (ok : flush (w, sink) = .ok count (w', sink')) :
    SessionWriter.flush (w.view, sink) = .ok count (w'.view, sink') ∧ w'.symbols = w.symbols := by
  obtain ⟨⟨v, after⟩, flushes, same⟩ := flushOk ok
  obtain ⟨rfl, rfl⟩ := Prod.mk.inj same
  have invariant := follows.session.invariant importable chain
  obtain ⟨trees, holds⟩ := invariant.holds
  obtain ⟨system, user, -, -, announced, -⟩ := invariant.steady.flushed holds.user flushes
  rw [putView (congrArg SessionWriter.symbols announced)]
  exact ⟨flushes, rfl⟩

theorem Follows.flush (importable : ∀ t ∈ IndexedTable.plain tables, t.Importable catalog)
    (chain : (Imports.ofTables (IndexedTable.plain tables)).maxId < Sid.last)
    (follows : Follows blockSize tables w sink sent waiting sent') {count : Nat}
    (ok : flush (w, sink) = .ok count (w', sink')) :
    Follows blockSize tables w' sink' (sent ++ [(waiting, w.symbols)]) []
      (sent' ++ [(waiting, w.symbols.view)]) := by
  obtain ⟨flushes, kept⟩ := follows.flushed importable chain ok
  refine ⟨?_, follows.session.flush (Reply.flushedIff.mpr flushes),
    List.rel_append follows.sent (.cons ⟨rfl, follows.spelled⟩ .nil)⟩
  unfold Spelled
  rw [kept]
  exact follows.spelled

theorem Follows.finish (importable : ∀ t ∈ IndexedTable.plain tables, t.Importable catalog)
    (chain : (Imports.ofTables (IndexedTable.plain tables)).maxId < Sid.last)
    (follows : Follows blockSize tables w sink sent waiting sent') {count : Nat}
    (ok : finish (w, sink) = .ok count (w', sink')) :
    Follows blockSize tables w' sink' (sent ++ [(waiting, w.symbols)]) []
      (sent' ++ [(waiting, w.symbols.view)]) := by
  obtain ⟨written, ⟨u, after⟩, flush, ended⟩ := bindOk ok
  cases ended
  obtain ⟨flushes, kept⟩ := follows.flushed importable chain flush
  have spelled : u.Spelled := by
    unfold Spelled
    rw [kept]
    exact follows.spelled
  have finished := SessionWriter.finishRuns flushes
  exact ⟨.ofImports spelled.imports, follows.session.finish (Reply.flushedIff.mpr finished),
    List.rel_append follows.sent (.cons ⟨rfl, follows.spelled⟩ .nil)⟩

theorem Run.follows (counted : catalog.Counted) (importable : ∀ t ∈ tables, t.toSharedTable.Importable catalog)
    (built : build blockSize tables = .ok opened) (range : opened.symbols.imports.maxId = .ok last)
    (run : Run opened w sink sent waiting) :
    (Imports.ofTables (IndexedTable.plain tables)).maxId < Sid.last ∧
      ∃ sent', Follows blockSize tables w sink sent waiting sent' := by
  obtain ⟨spelled, view⟩ := builtSpelled counted importable built range
  have imports : opened.symbols.view.imports = .ofTables (IndexedTable.plain tables) :=
    congrArg (fun w => w.symbols.imports) view
  have chain : (Imports.ofTables (IndexedTable.plain tables)).maxId < Sid.last := imports ▸ spelled.imports.room
  have importable : ∀ t ∈ IndexedTable.plain tables, t.Importable catalog := by
    simpa [IndexedTable.plain] using importable
  refine ⟨chain, ?_⟩
  induction run with
  | start fresh => exact ⟨[], spelled, view ▸ .start fresh, .nil⟩
  | @values w w' sink sent waiting values calls replies earlier formed plain written ran ih =>
    obtain ⟨sent', follows⟩ := ih
    rcases follows.values importable chain formed written with ⟨symbols, user, done, later⟩ | ⟨stops, -⟩
    · rw [ran, Except.ok.injEq, Prod.mk.injEq] at done
      obtain ⟨-, rfl⟩ := done
      exact ⟨sent', later plain⟩
    · rw [ran] at stops
      contradiction
  | flush earlier ok ih =>
    obtain ⟨sent', follows⟩ := ih
    exact ⟨_, follows.flush importable chain (ofFlushOk ok)⟩
  | finish earlier ok ih =>
    obtain ⟨sent', follows⟩ := ih
    exact ⟨_, follows.finish importable chain (ofFlushOk ok)⟩

/-- The values of every flush, read while the table of the reader is the one of the writer then. -/
inductive ReadBack : List (List Given × WordSymbols) → List (SymbolTable × Tree) → Prop
  | nothing : ReadBack [] []
  | flush {values symbols t rest trees shown} (same : symbols.Exact t) (read : Given.Read t values trees)
      (more : ReadBack rest shown) :
      ReadBack ((values, symbols) :: rest) (trees.map (fun tree => (t, tree)) ++ shown)

theorem Follows.rooms
    (same : List.Forall₂ (fun flush flush' => flush.1 = flush'.1 ∧ flush.2.Spells flush'.2) sent sent') :
    ∀ flush ∈ sent', flush.2.maxId ≤ Sid.last := by
  induction same with
  | nil => simp
  | cons first others ih => exact List.forall_mem_cons.mpr ⟨first.2.room, ih⟩

theorem Follows.readBack {shown : List (SymbolTable × Tree)} (readBack : Ion.ReadBack sent' shown)
    (same : List.Forall₂ (fun flush flush' => flush.1 = flush'.1 ∧ flush.2.Spells flush'.2) sent sent') :
    ReadBack sent shown := by
  induction readBack generalizing sent with
  | nothing =>
    cases same
    exact .nothing
  | flush read more ih =>
    cases same with
    | cons first others =>
      obtain ⟨rfl, spells⟩ := first
      exact .flush spells.exact read (ih others)

theorem performsFlush {v : SessionWriter} {count : Nat}
    (flushes : SessionWriter.flush (w.view, sink) = .ok count (v, sink')) :
    w.perform (.flush sink) = .ok (.flushed count sink', w.put v) := by
  have here := flushRuns (s := (w, sink)) flushes
  simp only [perform, ofFlush, here]

theorem performsFinish {v : SessionWriter} {count : Nat}
    (flushes : SessionWriter.flush (w.view, sink) = .ok count (v, sink')) :
    w.perform (.finish sink) = .ok (.flushed count sink', (w.put v).endSession) := by
  have here := flushRuns (s := (w, sink)) flushes
  simp only [perform, ofFlush, finish, bindRuns here]
  rfl

end Session

/-- Whole values go through a writer, flushed and finished to one sink anywhere between them, and a reader over
the sink meets each of them under the symbols that the writer had when it sent it. A call stops only where a new
text needs a symbol ID behind the greatest. -/
theorem sessionRoundTrip (counted : catalog.Counted)
    (importable : ∀ t ∈ tables, t.toSharedTable.Importable catalog) (built : build blockSize tables = .ok opened)
    (range : opened.symbols.imports.maxId = .ok last) {sink : Sink} {sent : List (List Given × WordSymbols)}
    {waiting : List Given} (run : Run opened w sink sent waiting) :
    (∀ values, Given.WellFormedAll false values →
      (∃ calls, Given.Written false values calls) ∧
        ∀ calls, Given.Written false values calls →
          match w.run calls with
          | .ok (replies, _) => replies = List.replicate calls.length .done
          | .error stop => stop = .overflow ∧ w.Exhausts calls) ∧
      (∀ received, ∃ count after w',
        w.perform (.flush ⟨none, false, received⟩) = .ok (.flushed count after, w')) ∧
      (∀ received, ∃ count after w',
        w.perform (.finish ⟨none, false, received⟩) = .ok (.flushed count after, w')) ∧
      (sent = [] → sink.received = []) ∧
      (sent ≠ [] → sink.received.length < 2 ^ 64 →
        ∃ r shown, Reader.of catalog sink.received = .ok r ∧ ReadBack sent shown ∧
          (∃ r', r.Reads shown r') ∧ ∀ items r', r.Reads items r' → items = shown) := by
  obtain ⟨chain, sent', follows⟩ := run.follows counted importable built range
  have plainly : ∀ t ∈ IndexedTable.plain tables, t.Importable catalog := by
    simpa [IndexedTable.plain] using importable
  obtain ⟨writes, -, -, unsent, reads⟩ := follows.session.roundTrips plainly chain
  have invariant := follows.session.invariant plainly chain
  obtain ⟨trees, holds⟩ := invariant.holds
  refine ⟨fun values formed => ⟨(writes values formed).1, fun calls written => ?_⟩, fun received => ?_,
    fun received => ?_, ?_, ?_⟩
  · rcases follows.values plainly chain formed written with ⟨symbols, user, ran, -⟩ | ⟨stops, exhausts⟩
    · rw [ran]
    · rw [stops]
      exact ⟨rfl, exhausts⟩
  · obtain ⟨count, ⟨v, after⟩, flushes⟩ := invariant.steady.flushes holds.user received
    exact ⟨count, after, _, performsFlush flushes⟩
  · obtain ⟨count, ⟨v, after⟩, flushes⟩ := invariant.steady.flushes holds.user received
    exact ⟨count, after, _, performsFinish flushes⟩
  · rintro rfl
    exact unsent (List.forall₂_nil_left_iff.mp follows.sent)
  · intro flushed fits
    have flushed' : sent' ≠ [] := by
      rintro rfl
      exact flushed (List.forall₂_nil_right_iff.mp follows.sent)
    obtain ⟨r, shown, opened, readBack, walk, only⟩ := reads flushed' (Follows.rooms follows.sent) fits
    exact ⟨r, shown, opened, Follows.readBack readBack follows.sent, walk, only⟩

theorem importedSessionRoundTrip :
    let shared : IndexedTable := .ofSlots "shared" 1 [some "x"]
    let catalog : Catalog := .ofTables [shared.toSharedTable]
    let values : List Given := [.symbol none [.text "a"] (.text "x")]
    let sent : Bytes :=
      [0xE0, 0x01, 0x00, 0xEA, 0xEE, 0x9B, 0x81, 0x83, 0xDE, 0x97, 0x86, 0xBE, 0x90, 0xDE, 0x8E, 0x84,
        0x86, 0x73, 0x68, 0x61, 0x72, 0x65, 0x64, 0x85, 0x21, 0x01, 0x88, 0x21, 0x01, 0x87, 0xB2, 0x81,
        0x61, 0xE4, 0x81, 0x8B, 0x71, 0x0A]
    catalog.Counted ∧ (∀ t ∈ [shared], t.toSharedTable.Importable catalog) ∧
      ∃ opened w symbols r shown, build 1 [shared] = .ok opened ∧ opened.symbols.imports.maxId = .ok 10 ∧
        Run opened w ⟨none, false, sent⟩ [(values, symbols)] [] ∧ Reader.of catalog sent = .ok r ∧
        ReadBack [(values, symbols)] shown ∧ ∃ r', r.Reads shown r' := by
  intro shared catalog values sent
  have counted : catalog.Counted := by
    unfold Catalog.Counted
    decide
  have importable : ∀ t ∈ [shared], t.toSharedTable.Importable catalog := by
    intro t mem
    rw [List.mem_singleton] at mem
    subst mem
    exact ⟨by decide, by decide, by decide⟩
  obtain ⟨chain, chained, range⟩ : ∃ chain, WordChain.build [(shared, 1)] = .ok chain ∧ chain.maxId = .ok 10 :=
    ⟨_, rfl, by decide +kernel⟩
  obtain ⟨opened, built, range⟩ : ∃ opened, build 1 [shared] = .ok opened ∧
      opened.symbols.imports.maxId = .ok 10 := ⟨_, buildOver chained, range⟩
  obtain ⟨spelled, view⟩ := builtSpelled counted importable built range
  let calls : List SessionRequest := [.setAnnotations ["a"], .writeSymbol "x"]
  have written : Given.Written false values calls := by
    have annotated : SessionRequest.announced false [.setAnnotations ["a"]] = some ⟨none, [.text "a"]⟩ := rfl
    exact .symbol annotated .text .nothing
  have formed : Given.WellFormedAll false values :=
    ⟨⟨⟨rfl, by decide, by simp, by simp [Name.Fits]⟩, trivial⟩, trivial⟩
  let t : SymbolTable := ⟨.ofTables [shared.toSharedTable], [some "a"]⟩
  have resolved : SessionRequest.Resolves opened.symbols.view calls
      [.setAnnotations [11], .write (.symbol 10)] t := by
    have symbols : opened.symbols.view = .ofImports (.ofTables [shared.toSharedTable]) :=
      congrArg SessionWriter.symbols view
    have first : SessionRequest.resolve opened.symbols.view (.setAnnotations ["a"]) =
        some (.setAnnotations [11], t) := by
      rw [symbols]
      decide +kernel
    have second : SessionRequest.resolve t (.writeSymbol "x") = some (.write (.symbol 10), t) := by
      decide +kernel
    exact .first first (.first second .nothing)
  obtain ⟨user, same⟩ : ∃ user, user = Calls.after SidWriter.perform opened.user
      [.setAnnotations [11], .write (.symbol 10)] := ⟨_, rfl⟩
  have empty : opened.user = .empty 1 := congrArg SessionWriter.user view
  have below : Calls.Runs SidWriter.perform opened.user [.setAnnotations [11], .write (.symbol 10)] user := by
    rw [empty] at same ⊢
    exact ⟨same.symm, by decide +kernel⟩
  have words := runsResolved spelled resolved below
  rw [if_pos (by decide +kernel)] at words
  obtain ⟨symbols, ran, spells, grown⟩ := words
  have start : Run opened opened (.empty none false) [] [] := .start rfl
  have given := start.values formed (by simp [values, Given.isTable]) written ran
  let w : WordSession := { opened with user, symbols }
  obtain ⟨v, at_⟩ : ∃ v : SessionWriter, v = ⟨user, .empty 1, t, 0, false, false⟩ := ⟨_, rfl⟩
  have viewed : w.view = v := by
    have same := congrArg (fun u => SessionWriter.mk user u.system symbols.view u.declared u.tableWritten
      u.sessionOpen) view
    rw [at_, ← grown]
    exact same
  have flushed : (v.perform (.flush (.empty none false))).1 = .flushed 38 ⟨none, false, sent⟩ := by
    rw [at_, same, empty]
    decide +kernel
  have flushes := Reply.flushedIff.mp (Reply.andState flushed)
  rw [← viewed] at flushes
  have run := given.finish (performsFinish flushes)
  obtain ⟨-, -, -, -, reads⟩ := sessionRoundTrip counted importable built range run
  obtain ⟨r, shown, opens, readBack, walk, -⟩ := reads (by simp) (by simp [sent])
  exact ⟨counted, importable, opened, _, symbols, r, shown, built, range, run, opens, readBack, walk⟩

theorem secondSymbolStops :
    let huge : IndexedTable := .placeholder "p" 1 0xFFFFFFF5
    let catalog : Catalog := .ofTables [huge.toSharedTable]
    let values : List Given := [.symbol none [] (.text "a"), .symbol none [] (.text "b")]
    let calls : List SessionRequest := [.writeSymbol "a", .writeSymbol "b"]
    catalog.Counted ∧ (∀ t ∈ [huge], t.toSharedTable.Importable catalog) ∧ Given.WellFormedAll false values ∧
      Given.Written false values calls ∧
      ∃ opened, build 1 [huge] = .ok opened ∧ opened.symbols.imports.maxId = .ok 0xFFFFFFFE ∧
        (∃ w, opened.run [.writeSymbol "a"] = .ok ([.done], w) ∧ w.symbols.maxId = .ok 0xFFFFFFFF) ∧
        opened.run calls = .error .overflow := by
  intro huge catalog values calls
  have counted : catalog.Counted := by
    unfold Catalog.Counted
    decide
  have importable : ∀ t ∈ [huge], t.toSharedTable.Importable catalog := by
    intro t mem
    rw [List.mem_singleton] at mem
    subst mem
    exact ⟨by decide, by decide, by decide⟩
  obtain ⟨chain, chained, range⟩ : ∃ chain, WordChain.build [(huge, 0xFFFFFFF5)] = .ok chain ∧
      chain.maxId = .ok 0xFFFFFFFE := ⟨_, rfl, by decide +kernel⟩
  obtain ⟨opened, built, range⟩ : ∃ opened, build 1 [huge] = .ok opened ∧
      opened.symbols.imports.maxId = .ok 0xFFFFFFFE := ⟨_, buildOver chained, range⟩
  obtain ⟨spelled, view⟩ := builtSpelled counted importable built range
  have empty : opened.user = .empty 1 := congrArg SessionWriter.user view
  have symbols : opened.symbols.view = .ofImports (.ofTables [huge.toSharedTable]) :=
    congrArg SessionWriter.symbols view
  have written : Given.Written false values calls := by
    have bare : SessionRequest.announced false [] = some ⟨none, []⟩ := rfl
    exact .symbol bare .text (.symbol bare .text .nothing)
  have formed : Given.WellFormedAll false values :=
    ⟨⟨⟨rfl, by decide, by simp, by simp⟩, trivial⟩, ⟨⟨rfl, by decide, by simp, by simp⟩, trivial⟩, trivial⟩
  let one : SymbolTable := ⟨.ofTables [huge.toSharedTable], [some "a"]⟩
  let two : SymbolTable := ⟨.ofTables [huge.toSharedTable], [some "a", some "b"]⟩
  have first : SessionRequest.resolve opened.symbols.view (.writeSymbol "a") =
      some (.write (.symbol 0xFFFFFFFF), one) := by
    rw [symbols]
    decide +kernel
  have second : SessionRequest.resolve one (.writeSymbol "b") = some (.write (.symbol 0x100000000), two) := by
    decide +kernel
  have belowOne : Calls.Runs SidWriter.perform opened.user [.write (.symbol 0xFFFFFFFF)]
      (Calls.after SidWriter.perform opened.user [.write (.symbol 0xFFFFFFFF)]) := by
    rw [empty]
    exact ⟨rfl, by decide +kernel⟩
  have belowTwo : Calls.Runs SidWriter.perform opened.user
      [.write (.symbol 0xFFFFFFFF), .write (.symbol 0x100000000)]
      (Calls.after SidWriter.perform opened.user
        [.write (.symbol 0xFFFFFFFF), .write (.symbol 0x100000000)]) := by
    rw [empty]
    exact ⟨rfl, by decide +kernel⟩
  have single := runsResolved spelled (.first first .nothing) belowOne
  rw [if_pos (by decide +kernel)] at single
  obtain ⟨grown, ran, spells, -⟩ := single
  have both := runsResolved spelled (.first first (.first second .nothing)) belowTwo
  rw [if_neg (by decide +kernel)] at both
  exact ⟨counted, importable, formed, written, opened, built, range,
    ⟨_, ran, spells.maxId.trans (by decide +kernel)⟩, both.1⟩

end WordSession

end Ion
