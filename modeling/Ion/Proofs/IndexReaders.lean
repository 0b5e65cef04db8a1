import Ion.Proofs.Rounds
import Ion.Proofs.Windows

/-! The reader by index. At every place that the calls of a reader can come to, in success and in failure, the
window and the bounds of the containers are inside the data, so that nothing is taken from outside of them, and
what is kept apart agrees: the mark, the header and the scalar of the value. -/
namespace Ion

def ContainerFrame.of (e : Entered) : ContainerFrame := ⟨e.container.type, e.resume.stop, e.resume.pos⟩

def Position.slot : Position → Variant
  | on _ decoded => decoded
  | _ => none

namespace IndexReader

open Reader (Sited left Timed)
open Dialogue

def of (data : Bytes) (r : Reader) : IndexReader where
  input := Window.along data r.position.cursor
  catalog := r.catalog
  symbols := r.symbols
  stack := r.inside.map ContainerFrame.of
  state := r.phase
  current := r.current?.map ValueHeader.of
  slot := r.position.slot

variable {data : Bytes} {r s : Reader}

inductive Ends (data : Bytes) :
    EStateM.Result (Fault IonError) IndexReader α → EStateM.Result IonError Reader α → Prop
  | ok (a : α) {r : Reader} (sited : r.Sited data) : Ends data (.ok a (of data r)) (.ok a r)
  | failed (e : IonError) {r : Reader} (sited : r.Sited data) :
      Ends data (.error (.failed e) (of data r)) (.error e r)

def Answers (data : Bytes) (act : Call α) (call : Reader.Call α) (r : Reader) : Prop :=
  Ends data (act (of data r)) (call r)

def Follows (data : Bytes) (act : Call α) (timed : Timed α) (r : Reader) : Prop :=
  ∀ result, timed r = some result → Ends data (act (of data r)) result

namespace Answers

variable {act : Call α} {call : Reader.Call α}

theorem of (sited : (left call r).Sited data)
    (same : act (.of data r) = match call r with
      | .ok a s => .ok a (.of data s)
      | .error e s => .error (.failed e) (.of data s)) : Answers data act call r := by
  unfold Answers
  rw [left] at sited
  rw [same]
  cases ran : call r <;> rw [ran] at sited
  · exact .ok _ sited
  · exact .failed _ sited

theorem bind {next : α → Call β} {plainNext : α → Reader.Call β} (first : Answers data act call r)
    (more : ∀ a s, s.Sited data → Answers data (next a) (plainNext a) s) :
    Answers data (act >>= next) (call >>= plainNext) r := by
  unfold Answers at *
  simp only [Bind.bind, EStateM.bind]
  generalize act (.of data r) = result at first
  generalize call r = plain at first
  cases first with
  | ok a sited => exact more a _ sited
  | failed e sited => exact .failed e sited

theorem pure (a : α) (sited : r.Sited data) : Answers data (Pure.pure a) (Pure.pure a) r := .ok a sited

theorem either {condition condition' : Prop} [Decidable condition] [Decidable condition'] {other : Call α}
    {plainOther : Reader.Call α} (same : condition ↔ condition') (first : Answers data act call r)
    (second : Answers data other plainOther r) :
    Answers data (if condition then act else other) (if condition' then call else plainOther) r := by
  by_cases holds : condition'
  · rw [if_pos (same.mpr holds), if_pos holds]
    exact first
  · rw [if_neg (mt same.mp holds), if_neg holds]
    exact second

theorem follows (answers : Answers data act call r) : Follows data act (.of call) r := by
  rintro result ⟨⟩
  exact answers

end Answers

namespace Follows

variable {act : Call α} {timed : Timed α}

theorem leads {next : α → Call β} {timedNext : α → Timed β} (first : Follows data act timed r)
    (more : ∀ a s, timed r = some (.ok a s) → s.Sited data → Follows data (next a) (timedNext a) s) :
    Follows data (act >>= next) (timed >>= timedNext) r := by
  intro result ran
  simp only [Bind.bind] at ran
  cases begun : timed r with
  | none => simp [begun] at ran
  | some middle =>
    have ends := first middle begun
    simp only [Bind.bind, EStateM.bind]
    generalize act (.of data r) = reached at ends
    rw [begun] at ran more
    cases ends with
    | ok a sited => exact more a _ rfl sited result ran
    | failed e sited =>
      cases ran
      exact .failed e sited

theorem bind {next : α → Call β} {timedNext : α → Timed β} (first : Follows data act timed r)
    (more : ∀ a s, s.Sited data → Follows data (next a) (timedNext a) s) :
    Follows data (act >>= next) (timed >>= timedNext) r :=
  first.leads fun a s _ => more a s

theorem pure (a : α) (sited : r.Sited data) : Follows data (Pure.pure a) (Pure.pure a) r :=
  (Answers.pure a sited).follows

theorem either {condition condition' : Prop} [Decidable condition] [Decidable condition'] {other : Call α}
    {timedOther : Timed α} (same : condition ↔ condition') (first : Follows data act timed r)
    (second : Follows data other timedOther r) :
    Follows data (if condition then act else other) (if condition' then timed else timedOther) r := by
  by_cases holds : condition'
  · rw [if_pos (same.mpr holds), if_pos holds]
    exact first
  · rw [if_neg (mt same.mp holds), if_neg holds]
    exact second

end Follows

theorem currentOf (data : Bytes) (r : Reader) : (of data r).current = r.current?.map ValueHeader.of := rfl

theorem typeOf (data : Bytes) (r : Reader) : (of data r).currentType? = r.currentType? := by
  simp only [currentType?, Reader.currentType?, currentOf]
  cases r.current? <;> rfl

theorem nullOf (data : Bytes) (r : Reader) : (of data r).currentIsNull = r.currentIsNull := by
  simp only [currentIsNull, Reader.currentIsNull, currentOf]
  cases r.current? <;> rfl

theorem fieldOf (data : Bytes) (r : Reader) : (of data r).field? = r.field? := by
  simp only [field?, Reader.field?, currentOf]
  cases r.current? <;> rfl

theorem nullIff (data : Bytes) (r : Reader) : (of data r).currentIsNull = true ↔ r.currentIsNull = true := by
  rw [nullOf]

theorem shownIff (data : Bytes) (r : Reader) (type wanted : ValueType) :
    type = wanted ∧ (of data r).currentIsNull = false ↔ type = wanted ∧ r.currentIsNull = false := by
  rw [nullOf]

theorem namedIff (data : Bytes) (r : Reader) (sid : Nat) (type wanted : ValueType) :
    (of data r).field? = some sid ∧ type = wanted ↔ r.field? = some sid ∧ type = wanted := by
  rw [fieldOf]

theorem depthOf (data : Bytes) (r : Reader) : (of data r).depth = r.depth := List.length_map _

theorem annotationsOf (data : Bytes) (r : Reader) : (of data r).annotations = r.annotations := by
  simp only [annotations, Reader.annotations, currentOf]
  cases r.current? <;> rfl

theorem headerOf (data : Bytes) (r : Reader) (expected : Expectation) :
    (of data r).header expected = match r.header expected with
      | .ok h => .ok (.of h)
      | .error e => .error (.failed e) := by
  simp only [header, Reader.header, currentOf]
  cases r.current? with
  | none => rfl
  | some h =>
    change (if expected.admits h.type then if h.isNull then _ else _ else _) = _
    dsimp only
    split
    · split <;> rfl
    · rfl

theorem payloadOf (sited : r.Sited data) {h : Header} (current : r.current? = some h) :
    (of data r).payload (.of h) = .ok h.payload := by
  obtain ⟨decoded, position⟩ := Reader.currentAt current
  rw [Sited, position] at sited
  cases sited with
  | on found enclosed cached =>
    have slice : data.slice? h.start.pos h.after.pos = some h.payload := found.payload
    unfold payload
    rw [show (of data _).input.data.slice? (ValueHeader.of h).start (ValueHeader.of h).stop = some h.payload
      from slice]

theorem materializeEnds (sited : r.Sited data) (type : ValueType) :
    match Reader.scalar type r with
      | .ok decoded s => materialize type (of data r) = .ok () (of data s) ∧ (of data s).slot = decoded
      | .error e s => materialize type (of data r) = .error (.failed e) (of data s) := by
  unfold materialize Reader.scalar
  rw [headerOf]
  cases asked : r.header (.type type) with
  | error e => rfl
  | ok h =>
    have current := Reader.headerCurrent asked
    obtain ⟨decoded, position⟩ := Reader.currentAt current
    have slot : (of data r).slot = decoded := by rw [of, position]; rfl
    have payload := payloadOf sited current
    have admitted := (Reader.headerAdmitted asked).1
    simp only [Expectation.admits, beq_iff_eq] at admitted
    obtain ⟨catalog, symbols, inside, stands⟩ := r
    subst position
    cases decoded with
    | some scalar => exact ⟨rfl, rfl⟩
    | none =>
      have decodes := h.decodeSame
      rw [← admitted] at decodes
      simp only [slot, payload, Bind.bind, Except.bind, decodes]
      cases h.scalar with
      | error e => rfl
      | ok scalar => exact ⟨rfl, rfl⟩

theorem gettingAnswers (sited : r.Sited data) (type : ValueType) (form : Variant → Option α) (e : IonError) :
    Answers data (getting type form e) (Reader.getting type form e) r := by
  refine .of (Reader.gettingSited type form e sited) ?_
  have ends := materializeEnds sited type
  simp only [getting, Reader.getting, Bind.bind, EStateM.bind]
  cases ran : Reader.scalar type r with
  | error e' s =>
    rw [ran] at ends
    rw [ends]
  | ok decoded s =>
    rw [ran] at ends
    obtain ⟨ran', slot⟩ := ends
    rw [ran']
    dsimp only [get, getThe, MonadStateOf.get, EStateM.get]
    rw [slot]
    cases form decoded <;> rfl

theorem integerSizeAnswers (sited : r.Sited data) : Answers data integerSize Reader.integerSize r := by
  refine .of (Reader.integerSizeSited sited) ?_
  unfold integerSize Reader.integerSize
  rw [typeOf, nullOf]
  split
  · have ends := materializeEnds sited .int
    simp only [Bind.bind, EStateM.bind]
    cases ran : Reader.scalar .int r with
    | error e' s =>
      rw [ran] at ends
      rw [ends]
    | ok decoded s =>
      rw [ran] at ends
      obtain ⟨ran', slot⟩ := ends
      rw [ran']
      dsimp only [get, getThe, MonadStateOf.get, EStateM.get]
      rw [slot]
      rfl
  · rfl

theorem symbolOf (sited : r.Sited data) : (of data r).symbol = r.symbol.mapError .failed := by
  unfold symbol Reader.symbol
  rw [headerOf]
  cases asked : r.header (.type .symbol) with
  | error e => rfl
  | ok h =>
    simp only [payloadOf sited (Reader.headerCurrent asked), Bind.bind, Except.bind]
    cases Payload.symbol h.payload <;> rfl

theorem symbolTokenAnswers (sited : r.Sited data) : Answers data symbolToken Reader.symbolToken r := by
  have sited' : (left Reader.symbolToken r).Sited data := by
    unfold left Reader.symbolToken
    cases r.symbol <;> exact sited
  refine .of sited' ?_
  unfold symbolToken Reader.symbolToken
  rw [symbolOf sited]
  cases r.symbol <;> rfl

theorem lobOf (sited : r.Sited data) : (of data r).lob = r.lob.mapError .failed := by
  unfold lob Reader.lob
  rw [headerOf]
  cases asked : r.header .lob with
  | error e => rfl
  | ok h => exact payloadOf sited (Reader.headerCurrent asked)

theorem lobSizeOf (data : Bytes) (r : Reader) : (of data r).lobSize = r.lobSize.mapError .failed := by
  unfold lobSize Reader.lobSize
  rw [headerOf]
  cases r.header .lob with
  | error e => rfl
  | ok h => exact congrArg Except.ok (Nat.add_sub_cancel_left h.start.pos h.length)

theorem containerOf {type : ValueType} {kind : Container} (holds : type.container? = some kind) :
    kind.type = type := by
  cases type <;> cases holds <;> rfl

theorem stepInAnswers (sited : r.Sited data) : Answers data stepIn Reader.stepIn r := by
  refine .of (Reader.stepInSited sited) ?_
  unfold stepIn Reader.stepIn
  rw [currentOf]
  cases current : r.current? with
  | none => rfl
  | some h =>
    obtain ⟨decoded, position⟩ := Reader.currentAt current
    change (if h.type.container?.isSome = false then _ else if h.isNull then _ else _) = _
    cases holds : h.type.container? with
    | none => simp only [Option.isSome_none, if_true, holds]; rfl
    | some kind =>
      simp only [Option.isSome_some, Bool.true_eq_false, if_false, holds]
      cases h.isNull with
      | true => rfl
      | false =>
        obtain ⟨catalog, symbols, inside, stands⟩ := r
        subst position
        have frame : ContainerFrame.of ⟨kind, h.after⟩ = ⟨h.type, h.start.stop, h.after.pos⟩ := by
          rw [ContainerFrame.of, containerOf holds]
          rfl
        simp only [of, List.map_cons, frame, Bool.false_eq_true, if_false]
        rfl

theorem stepOutAnswers (sited : r.Sited data) : Answers data stepOut Reader.stepOut r := by
  refine .of (Reader.stepOutSited sited) ?_
  obtain ⟨catalog, symbols, inside, position⟩ := r
  cases inside <;> rfl

theorem attemptAnswers {act : Call α} {call : Reader.Call α} (answers : Answers data act call r) :
    Answers data (attempt act) (Reader.attempt call) r := by
  unfold Answers attempt Reader.attempt at *
  generalize act (of data r) = result at answers
  generalize call r = plain at answers
  cases answers with
  | ok a sited => exact .ok (some a) sited
  | failed e sited => exact .ok none sited

theorem importMemberAnswers (entry : ImportEntry) (type : ValueType) (sited : r.Sited data) :
    Answers data (importMember entry type) (Reader.importMember.run entry type) r := by
  have number : Answers data (attempt long) (Reader.attempt Reader.long) r :=
    attemptAnswers (gettingAnswers sited _ _ _)
  refine .either (nullIff data r) (.pure _ sited) ?_
  refine .either (namedIff data r _ _ _) ?_ (.either (namedIff data r _ _ _) ?_
    (.either (namedIff data r _ _ _) ?_ ?_))
  · exact (gettingAnswers sited _ _ _).bind fun name _ sited => .pure _ sited
  · exact number.bind fun version _ sited => .pure _ sited
  · exact number.bind fun maxId _ sited => .pure _ sited
  · exact .pure _ sited

theorem localSymbolAnswers (symbols : List (Option String)) (type : ValueType) (sited : r.Sited data) :
    Answers data (localSymbol symbols type) (Reader.localSymbols.run symbols type) r := by
  exact .either (shownIff data r _ _)
    ((gettingAnswers sited _ _ _).bind fun text _ sited => .pure _ sited) (.pure _ sited)

section

variable {step : Call (Option ValueType)} {timed : Timed (Option ValueType)}
  (steps : ∀ {r : Reader}, r.Sited data → Follows data step timed r)
include steps

theorem eachFollows {visit : σ → ValueType → Call σ} {timedVisit : σ → ValueType → Timed σ}
    (visits : ∀ {a type} {r : Reader}, r.Sited data → Follows data (visit a type) (timedVisit a type) r)
    (rounds : Nat) (a : σ) (sited : r.Sited data) :
    Follows data (each step visit rounds a) (Reader.eachIn timed timedVisit rounds a) r := by
  induction rounds generalizing r a with
  | zero =>
    intro result ran
    rw [Reader.eachIn] at ran
    contradiction
  | succ rounds ih =>
    refine (steps sited).bind fun found s sited => ?_
    cases found with
    | none => exact .pure a sited
    | some type => exact (visits sited).bind fun a' s' sited => ih a' sited

theorem enteringFollows {visit : σ → ValueType → Call σ} {timedVisit : σ → ValueType → Timed σ}
    (visits : ∀ {a type} {r : Reader}, r.Sited data → Follows data (visit a type) (timedVisit a type) r)
    (rounds : Nat) (a : σ) (sited : r.Sited data) :
    Follows data (entering step visit rounds a) (Reader.enteringIn timed timedVisit rounds a) r :=
  (stepInAnswers sited).follows.bind fun _ _ sited => (eachFollows steps visits rounds a sited).bind
    fun a' _ sited => (stepOutAnswers sited).follows.bind fun _ _ sited => .pure a' sited

theorem importEntryFollows (rounds : Nat) (entries : List ImportEntry) (type : ValueType) (sited : r.Sited data) :
    Follows data (importEntry step rounds entries type) (Reader.importEntriesIn timed rounds entries type) r := by
  have members {entry : ImportEntry} {type : ValueType} {r : Reader} (sited : r.Sited data) :
      Follows data (importMember entry type) (.of (Reader.importMember.run entry type)) r :=
    (importMemberAnswers entry type sited).follows
  refine .either (shownIff data r _ _) ?_ (.pure _ sited)
  exact (enteringFollows steps members rounds _ sited).bind fun entry _ sited => .pure _ sited

theorem tableMemberFollows (rounds : Nat) (entry : TableEntry) (type : ValueType) (sited : r.Sited data) :
    Follows data (tableMember step rounds entry type) (Reader.tableMemberIn timed rounds entry type) r := by
  have symbols {symbols : List (Option String)} {type : ValueType} {r : Reader} (sited : r.Sited data) :
      Follows data (localSymbol symbols type) (.of (Reader.localSymbols.run symbols type)) r :=
    (localSymbolAnswers symbols type sited).follows
  refine .either (nullIff data r) (.pure _ sited) ?_
  refine .either (namedIff data r _ _ _) ?_ (.either (namedIff data r _ _ _) ?_
    (.either (namedIff data r _ _ _) ?_ ?_))
  · exact (symbolTokenAnswers sited).follows.bind fun token _ sited => .pure _ sited
  · exact (enteringFollows steps (importEntryFollows steps rounds _ _) rounds [] sited).bind
      fun imports _ sited => .pure _ sited
  · exact (enteringFollows steps symbols rounds [] sited).bind fun symbols _ sited => .pure _ sited
  · exact .pure _ sited

end

theorem resolveAnswers (entries : List ImportEntry) (sited : r.Sited data) :
    Answers data (some <$> resolve entries) (some <$> Reader.resolve entries) r := by
  unfold Answers
  simp only [Functor.map, EStateM.map, resolve, Reader.resolve, show (of data r).catalog = r.catalog from rfl]
  cases entries.foldlM (ImportEntry.addTo r.catalog) .system with
  | ok imports => exact .ok _ sited
  | error fault => exact .failed _ sited

theorem symbolsSet (sited : r.Sited data) (symbols : SymbolTable) :
    Ends data (.ok () { of data r with symbols }) (.ok () { r with symbols }) :=
  .ok (r := { r with symbols }) () sited

theorem extendAnswers (imports : Option Imports) (added : List (Option String)) (sited : r.Sited data) :
    Answers data (extend imports added) (Reader.extend imports added) r := by
  have base : (imports.map Imports.maxId).getD r.symbols.maxId =
      ((imports.map SymbolTable.ofImports).getD r.symbols).maxId := by
    cases imports <;> rfl
  unfold Answers extend
  rw [Reader.extendRuns, show (of data r).symbols = r.symbols from rfl]
  dsimp only
  rw [SymbolTable.pushedAll, base]
  split
  · exact symbolsSet sited _
  · exact .failed _ sited

theorem installAnswers (entry : TableEntry) (sited : r.Sited data) :
    Answers data (install entry) (Reader.install entry) r := by
  have behind (imports : Option Imports) {s : Reader} (sited : s.Sited data) :=
    extendAnswers imports entry.symbols sited
  exact .either Iff.rfl ((Answers.pure none sited).bind fun imports _ => behind imports)
    ((resolveAnswers entry.imports sited).bind fun imports _ => behind imports)

theorem loadTableFollows {step : Call (Option ValueType)} {timed : Timed (Option ValueType)}
    (steps : ∀ {r : Reader}, r.Sited data → Follows data step timed r) (rounds : Nat) (sited : r.Sited data) :
    Follows data (loadTable step rounds) (Reader.loadTableIn timed rounds) r :=
  (enteringFollows steps (tableMemberFollows steps rounds _ _) rounds _ sited).bind fun entry _ sited =>
    (installAnswers entry sited).follows

end IndexReader

end Ion
