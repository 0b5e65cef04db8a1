import Ion.Proofs.Queries
import Ion.SlotReader

/-! Asking a value for what it says. The scalar of a value is decoded by the first call that gets to it and
kept in one place for all others, which may ask for another type or come when it cannot be decoded. No
order of such calls shows in an answer, then or later. -/
namespace Ion

def Position.fresh : Position → Position
  | on h _ => on h none
  | position => position

def Position.kept : Position → Variant
  | on _ decoded => decoded
  | _ => none

namespace Reader

def fresh (r : Reader) : Reader := { r with position := r.position.fresh }

variable {data : Bytes} {r : Reader} {h : Header}

theorem freshCurrent (r : Reader) : r.fresh.current? = r.current? := by
  unfold current? fresh
  cases r.position <;> rfl

theorem freshPhase (r : Reader) : r.fresh.phase = r.phase := by
  unfold phase fresh
  cases r.position <;> rfl

theorem freshHeader (r : Reader) (expected : Expectation) : r.fresh.header expected = r.header expected := by
  rw [header, header, freshCurrent]

theorem freshEntrance (r : Reader) : r.fresh.entrance? = r.entrance? := by
  rw [entrance?, entrance?, freshCurrent]

theorem freshFresh (r : Reader) : r.fresh.fresh = r.fresh := by
  unfold fresh
  cases r.position <;> rfl

theorem freshDecoded (sited : r.Sited data) (type : ValueType) : r.fresh.decoded type = r.decoded type := by
  unfold Reader.decoded
  rw [freshHeader]
  cases asked : r.header (.type type) with
  | error e => rfl
  | ok h =>
    obtain ⟨decoded, stands⟩ := currentAt (headerCurrent asked)
    simp only [fresh, stands, Position.fresh]
    cases decoded with
    | none => rfl
    | some s => simp [sited.cached stands, Except.map]

theorem freshNext (r : Reader) : r.fresh.ask (.call .next) = r.ask (.call .next) := by
  obtain ⟨catalog, symbols, inside, position⟩ := r
  cases position with
  | before | exhausted => rfl
  | on h decoded => cases inside <;> rfl

theorem freshGetting (sited : r.Sited data) (answer : α → Answer) (type : ValueType)
    (get : Variant → Option α) (e : IonError) :
    answered answer (getting type get e) r.fresh = answered answer (getting type get e) r := by
  simp only [answered, gettingRuns, freshDecoded sited type]
  cases r.decoded type with
  | error e => rfl
  | ok found =>
    dsimp only
    cases get found <;> rfl

theorem freshReply (sited : r.Sited data) (query : Query) : r.fresh.reply query = r.reply query := by
  have current := r.freshCurrent
  have type : r.fresh.currentType? = r.currentType? := congrArg (Option.map Header.type) current
  have null : r.fresh.currentIsNull = r.currentIsNull := by simp only [currentIsNull, current]
  cases query with
  | call request =>
    cases request with
    | next => exact (askAnswer ..).symm.trans ((congrArg Prod.fst r.freshNext).trans (askAnswer ..))
    | stepIn =>
      simp only [reply, answered, stepIn, current]
      cases r.current? with
      | none => rfl
      | some h =>
        dsimp only
        cases h.type.container? <;> cases h.isNull <;> rfl
    | stepOut =>
      simp only [reply, answered, stepOut, fresh]
      cases r.inside <;> rfl
    | integerSize =>
      simp only [reply, answered, integerSizeRuns, type, null, freshDecoded sited]
      by_cases integer : r.currentType? = some .int ∧ r.currentIsNull = false
      · simp only [if_pos integer]
        cases r.decoded .int <;> rfl
      · simp only [if_neg integer]
    | bool | int | long | integer | double | decimal | timestamp | string =>
      exact freshGetting sited _ _ _ _
  | depth => rfl
  | phase => exact congrArg Answer.phase r.freshPhase
  | type => exact congrArg Answer.type type
  | isNull => exact congrArg Answer.isNull null
  | fieldName | fieldToken | annotations =>
    simp only [reply, fieldName?, fieldToken?, annotations, current]
    rfl
  | symbol =>
    simp only [reply, symbol, freshHeader]
    rfl
  | lob | lobSize => simp only [reply, lob, lobSize, freshHeader]

instance (query : Query) : Decidable query.Still :=
  inferInstanceAs (Decidable (query ≠ .call .next ∧ query ≠ .call .stepIn ∧ query ≠ .call .stepOut))

theorem keepingFresh (position : Position) (type : ValueType) :
    (position.keeping type).fresh = position.fresh := by
  cases position with
  | before | exhausted => rfl
  | on h decoded => cases decoded <;> rfl

theorem leavesFresh (query : Query) (position : Position) : (query.leaves position).fresh = position.fresh := by
  unfold Query.leaves
  cases query.decodes? with
  | none => rfl
  | some type => exact keepingFresh position type

theorem stillFresh {query : Query} (still : query.Still) (r : Reader) : (r.ask query).2.fresh = r.fresh := by
  rw [askStill still, fresh, leavesFresh]
  rfl

end Reader

def FailsFresh (walk : Except Halt α) : Prop := ∀ halt, walk = .error halt → halt.position.fresh = halt.position

namespace FailsFresh

theorem ok (a : α) : FailsFresh (.ok a) := by
  intro halt failed
  contradiction

theorem bind {first : Except Halt α} {next : α → Except Halt β} (fails : FailsFresh first)
    (later : ∀ a, FailsFresh (next a)) : FailsFresh (first >>= next) := by
  intro halt failed
  rcases exceptFailed failed with failed | ⟨a, -, failed⟩
  · exact fails halt failed
  · exact later a halt failed

theorem either {condition : Prop} [Decidable condition] {walk other : Except Halt α} (first : FailsFresh walk)
    (second : FailsFresh other) : FailsFresh (if condition then walk else other) := by
  split
  · exact first
  · exact second

theorem decode (h : Header) (decode : Bytes → Except IonError α) : FailsFresh (h.decode decode) := by
  intro halt failed
  obtain ⟨e, -, rfl⟩ := mapErrorFailed failed
  rfl

theorem children {step : σ → Header → Except Halt σ} (steps : ∀ s h, FailsFresh (step s h)) (s : σ)
    (walk : Children) : FailsFresh (walk.fold step s) := by
  induction walk generalizing s with
  | done => exact ok s
  | failed e c =>
    intro halt failed
    cases failed
    rfl
  | child h rest ih => exact (steps s h).bind fun s => ih s

theorem fold {step : σ → Header → Except Halt σ} (steps : ∀ s h, FailsFresh (step s h)) (h : Header)
    (kind : Container) (s : σ) : FailsFresh (h.fold kind s step) := by
  intro halt failed
  obtain ⟨inner, walk, rfl⟩ := mapErrorFailed failed
  exact children steps s _ inner walk

theorem importMember (entry : ImportEntry) (h : Header) : FailsFresh (entry.member h) := by
  have name := (decode h Payload.text).bind fun text => ok { entry with name := some text }
  exact (ok entry).either (name.either ((ok _).either ((ok _).either (ok entry))))

theorem collect (entries : List ImportEntry) (h : Header) : FailsFresh (ImportEntry.collect entries h) := by
  have struct := (fold importMember h .struct ⟨none, none, none⟩).bind fun entry => ok (entries ++ [entry])
  exact struct.either (ok entries)

theorem symbol (symbols : List (Option String)) (h : Header) : FailsFresh (TableEntry.symbol symbols h) := by
  have text := (decode h Payload.text).bind fun text => ok (symbols ++ [some text])
  exact text.either (ok _)

theorem member (entry : TableEntry) (h : Header) : FailsFresh (entry.member h) := by
  have marker := (decode h Payload.symbol).bind fun sid => ok { entry with append := sid == Sid.symbolTable }
  have imports := (fold collect h .list []).bind fun imports => ok { entry with imports }
  have symbols := (fold symbol h .list []).bind fun symbols => ok { entry with symbols }
  exact (ok entry).either (marker.either (imports.either (symbols.either (ok entry))))

theorem load (catalog : Catalog) (symbols : SymbolTable) (h : Header) :
    FailsFresh (symbols.load catalog h) := by
  refine (fold member h _ _).bind fun entry halt failed => ?_
  obtain ⟨fault, -, rfl⟩ := mapErrorFailed failed
  rfl

theorem nextTop (catalog : Catalog) (symbols : SymbolTable) (c : Cursor) :
    (nextTop catalog symbols c).2.position.fresh = (nextTop catalog symbols c).2.position := by
  fun_induction Ion.nextTop catalog symbols c with
  | case1 | case2 | case7 => rfl
  | case3 symbols c inside c' scan ih | case4 symbols c inside c' scan ih => exact ih
  | case5 symbols c inside h c' scan table loaded load ih => exact ih
  | case6 symbols c inside h c' scan table halt failed => exact load catalog symbols h halt failed

end FailsFresh

namespace Reader

variable {data : Bytes} {r : Reader} {h : Header}

theorem nextArrives (r : Reader) : (r.ask (.call .next)).2.fresh = (r.ask (.call .next)).2 := by
  cases ahead : r.ahead? with
  | none =>
    rw [askNextEnded ahead]
    obtain ⟨catalog, symbols, inside, position⟩ := r
    cases position with
    | before | on => contradiction
    | exhausted => rfl
  | some c =>
    cases inside : r.inside with
    | nil =>
      rw [askNextTop inside ahead]
      simp only [fresh, FailsFresh.nextTop]
    | cons e outer =>
      rw [askNextWithin inside ahead]
      cases nextChild e.container c <;> rfl

theorem moveFresh (r : Reader) {query : Query} (moves : ¬query.Still) :
    (r.fresh.ask query).2 = (r.ask query).2.fresh := by
  obtain rfl | standing := query.nextOrStanding
  · rw [freshNext, nextArrives]
  cases standing with
  | stepIn =>
    rw [askStepIn, askStepIn, freshEntrance]
    cases r.entrance? <;> rfl
  | stepOut =>
    rw [askStepOut, askStepOut]
    obtain ⟨catalog, symbols, inside, position⟩ := r
    cases inside <;> rfl
  | still still => exact absurd still moves

theorem movesAlone (r : Reader) (calls : List Query) :
    Dialogue.after ask r.fresh (calls.filter (¬·.Still)) = (Dialogue.after ask r calls).fresh := by
  -- for all readers at once: a getter leaves another reader, with the same fresh one
  induction calls generalizing r with
  | nil => rfl
  | cons query rest ih =>
    by_cases still : query.Still
    · rw [List.filter_cons_of_neg (by simpa using still), ← stillFresh still]
      exact ih _
    · rw [List.filter_cons_of_pos (by simpa using still)]
      refine Eq.trans ?_ (ih _)
      rw [← moveFresh r still]
      rfl

end Reader

namespace SlotReader

open Reader (Query Answer)

def ran (answer : α → Answer) (call : Call α) (s : SlotReader) : Answer × SlotReader :=
  match call s with
  | .ok a s => (answer a, s)
  | .error e s => (.failed e, s)

def ask (s : SlotReader) (query : Query) : Answer × SlotReader :=
  match query with
  | .call .next => ran .type next s
  | .call .stepIn => ran (fun _ => .done) stepIn s
  | .call .stepOut => ran (fun _ => .done) stepOut s
  | .call .bool => ran (fun b => .scalar (.bool b)) bool s
  | .call .int => ran (fun n => .scalar (.int n)) int s
  | .call .long => ran (fun n => .scalar (.long n)) long s
  | .call .integer => ran (fun n => .scalar (.big n)) integer s
  | .call .double => ran (fun f => .scalar (.double f)) double s
  | .call .decimal => ran (fun d => .scalar (.decimal d)) decimal s
  | .call .timestamp => ran (fun t => .scalar (.timestamp t)) timestamp s
  | .call .string => ran (fun s => .scalar (.string s)) string s
  | .call .integerSize => ran .size integerSize s
  | _ => (s.reader.reply query, s)

def of (r : Reader) : SlotReader := ⟨r.fresh, r.position.kept⟩

variable {r : Reader} {type : ValueType}

theorem keepingKept {found : Variant} (decoded : r.decoded type = .ok found) :
    (r.position.keeping type).kept = found := by
  unfold Reader.decoded at decoded
  cases asked : r.header (.type type) with
  | error e => simp [asked] at decoded
  | ok h =>
    obtain ⟨kept, stands⟩ := Reader.currentAt (Reader.headerCurrent asked)
    have admitted := Reader.headerAdmitted asked
    simp only [Expectation.admits, beq_iff_eq] at admitted
    simp only [asked, stands] at decoded
    rw [stands]
    cases kept with
    | some scalar =>
      cases decoded
      rfl
    | none =>
      simp only [Position.keeping, admitted, and_self, if_pos]
      cases said : h.scalar with
      | error e => simp [said, Except.map] at decoded
      | ok scalar =>
        simp only [said, Except.map, Except.ok.injEq] at decoded
        exact decoded

theorem materializeRuns (r : Reader) (type : ValueType) :
    materialize type (of r) = match r.decoded type with
      | .ok _ => .ok () (of { r with position := r.position.keeping type })
      | .error e => .error e (of r) := by
  unfold materialize Reader.decoded
  rw [of, Reader.freshHeader]
  cases asked : r.header (.type type) with
  | error e => rfl
  | ok h =>
    obtain ⟨kept, stands⟩ := Reader.currentAt (Reader.headerCurrent asked)
    have admitted := Reader.headerAdmitted asked
    simp only [Expectation.admits, beq_iff_eq] at admitted
    obtain ⟨catalog, symbols, inside, position⟩ := r
    subst stands
    -- the type was compared with the header, so whatever fills the slot is taken
    cases kept with
    | some scalar => rfl
    | none =>
      simp only [Position.kept, Position.keeping, admitted, and_self, if_pos]
      cases h.scalar <;> rfl

theorem gettingRan (answer : α → Answer) (type : ValueType) (form : Variant → Option α) (e : IonError)
    (r : Reader) :
    ran answer (getting type form e) (of r) =
      (Reader.answered answer (Reader.getting type form e) r,
        of (Reader.left (Reader.getting type form e) r)) := by
  simp only [ran, getting, bind, EStateM.bind, materializeRuns, Reader.answered, Reader.left,
    Reader.gettingRuns]
  cases decoded : r.decoded type with
  | error e => rfl
  | ok found =>
    obtain rfl := keepingKept decoded
    dsimp only [get, getThe, MonadStateOf.get, EStateM.get, of]
    cases form _ <;> rfl

theorem integerSizeRan (r : Reader) :
    ran .size integerSize (of r) =
      (Reader.answered .size Reader.integerSize r, of (Reader.left Reader.integerSize r)) := by
  have current : r.fresh.currentType? = r.currentType? ∧ r.fresh.currentIsNull = r.currentIsNull := by
    simp only [Reader.currentType?, Reader.currentIsNull, r.freshCurrent, and_self]
  simp only [ran, integerSize, of, current, Reader.answered, Reader.left, Reader.integerSizeRuns]
  by_cases integer : r.currentType? = some .int ∧ r.currentIsNull = false
  · simp only [if_pos integer, bind, EStateM.bind]
    have runs := materializeRuns r .int
    rw [of] at runs
    rw [runs]
    cases decoded : r.decoded .int with
    | error e => rfl
    | ok found =>
      obtain rfl := keepingKept decoded
      rfl
  · simp only [if_neg integer]

theorem ofFresh (bare : r.fresh = r) : of r = ⟨r, none⟩ := by
  obtain ⟨catalog, symbols, inside, position⟩ := r
  cases position with
  | before | exhausted => rfl
  | on h decoded =>
    cases bare
    rfl

theorem nextRan (r : Reader) :
    ran .type next (of r) = ((r.ask (.call .next)).1, of (r.ask (.call .next)).2) := by
  have bare := r.nextArrives
  rw [← Reader.freshNext] at bare ⊢
  rw [ofFresh bare]
  obtain ⟨catalog, symbols, inside, position⟩ := r
  cases position with
  | exhausted => rfl
  | before | on =>
    simp only [ran, next, of, Reader.fresh, Position.fresh, Reader.ask, Reader.reply, Reader.answered,
      Reader.perform, Reader.left]
    cases Reader.next _ <;> rfl

theorem stepInRan (r : Reader) :
    ran (fun _ => .done) stepIn (of r) = ((r.ask (.call .stepIn)).1, of (r.ask (.call .stepIn)).2) := by
  obtain ⟨catalog, symbols, inside, position⟩ := r
  cases position with
  | before | exhausted => rfl
  | on h decoded =>
    simp only [ran, stepIn, stepping, Reader.stepIn, of, Reader.fresh, Position.fresh, Reader.current?,
      Reader.ask, Reader.reply, Reader.answered, Reader.perform, Reader.left]
    cases h.type.container? with
    | none => rfl
    | some kind => cases h.isNull <;> rfl

theorem stepOutRan (r : Reader) :
    ran (fun _ => .done) stepOut (of r) = ((r.ask (.call .stepOut)).1, of (r.ask (.call .stepOut)).2) := by
  obtain ⟨catalog, symbols, inside, position⟩ := r
  cases inside <;> rfl

theorem askOf {data : Bytes} (sited : r.Sited data) (query : Query) :
    (of r).ask query = ((r.ask query).1, of (r.ask query).2) := by
  cases query with
  | call request =>
    cases request with
    | next => exact nextRan r
    | stepIn => exact stepInRan r
    | stepOut => exact stepOutRan r
    | integerSize => exact integerSizeRan r
    | bool | int | long | integer | double | decimal | timestamp | string => exact gettingRan _ _ _ _ r
  | depth | phase | type | isNull | fieldName | fieldToken | annotations | symbol | lob | lobSize =>
    exact congrArg (·, of r) (Reader.freshReply sited _)

theorem answersAlike {data : Bytes} (sited : r.Sited data) (calls : List Query) :
    Dialogue.answers ask (of r) calls = Dialogue.answers Reader.ask r calls := by
  have steps {r : Reader} {s : SlotReader} (related : r.Sited data ∧ s = of r) (query : Query) :
      (s.ask query).1 = (r.ask query).1 ∧
        (r.ask query).2.Sited data ∧ (s.ask query).2 = of (r.ask query).2 := by
    obtain ⟨sited, rfl⟩ := related
    rw [askOf sited]
    exact ⟨rfl, Reader.askSited sited query, rfl⟩
  exact (Dialogue.answerTogether (fun (r : Reader) s => r.Sited data ∧ s = of r) id ⟨sited, rfl⟩
    (Dialogue.alongAll (fun _ _ => trivial) r calls)
    fun {_ _ query} related _ => steps related query).trans (List.map_id _)

end SlotReader

namespace Reader

variable {data : Bytes} {r : Reader}

theorem stillsFresh {getters : List Query} (still : ∀ query ∈ getters, query.Still) (r : Reader) :
    (Dialogue.after ask r getters).fresh = r.fresh := by
  have unmoved : getters.filter (¬·.Still) = [] := List.filter_eq_nil_iff.mpr (by simpa using still)
  rw [← movesAlone, unmoved]
  rfl

theorem afterFresh (r : Reader) (calls : List Query) :
    (Dialogue.after ask r calls).fresh = (Dialogue.after ask r.fresh calls).fresh := by
  rw [← movesAlone, ← movesAlone, freshFresh]

theorem answersFresh (sited : r.Sited data) {getters : List Query} (still : ∀ query ∈ getters, query.Still) :
    Dialogue.answers ask r getters = getters.map r.fresh.reply := by
  induction getters generalizing r with
  | nil => rfl
  | cons query rest ih =>
    have first : (r.ask query).1 = r.fresh.reply query :=
      (askAnswer r query).trans (freshReply sited query).symm
    have later := ih (askSited sited query) fun query other => still query (.tail _ other)
    rw [stillFresh (still query (.head _))] at later
    rw [Dialogue.answers, List.map_cons, first, later]

theorem freshSited (sited : r.Sited data) : r.fresh.Sited data := by
  obtain ⟨catalog, symbols, inside, position⟩ := r
  cases sited with
  | before place within => exact .before place within
  | on found enclosed cached => exact .fresh found enclosed
  | exhausted place within => exact .exhausted place within

theorem laterFresh (sited : r.Sited data) (later : List Query) :
    Dialogue.answers ask r later = Dialogue.answers ask r.fresh later := by
  have steps {r s : Reader} (related : r.Sited data ∧ s.Sited data ∧ r.fresh = s.fresh) (query : Query) :
      (s.ask query).1 = (r.ask query).1 ∧ (r.ask query).2.Sited data ∧ (s.ask query).2.Sited data ∧
        (r.ask query).2.fresh = (s.ask query).2.fresh := by
    obtain ⟨here, there, same⟩ := related
    refine ⟨?_, askSited here query, askSited there query, ?_⟩
    · rw [askAnswer, askAnswer, ← freshReply here, ← freshReply there, same]
    · by_cases still : query.Still
      · rw [stillFresh still, stillFresh still, same]
      · rw [← moveFresh r still, ← moveFresh s still, same]
  exact ((Dialogue.answerTogether (fun r s : Reader => r.Sited data ∧ s.Sited data ∧ r.fresh = s.fresh) id
    ⟨sited, freshSited sited, (freshFresh r).symm⟩ (Dialogue.alongAll (fun _ _ => trivial) r later)
    fun {_ _ query} related _ => steps related query).trans (List.map_id _)).symm

end Reader

/-- Whatever a reader was asked before, calls that only ask answer as the first call would that is made where
the value was come to, also those for another type and those that cannot be answered. They leave the reader as
it came there but for the scalar it keeps, which shows in nothing later. With one slot shared by all of them
the answers are the same. -/
theorem gettersLeaveNoTrace (catalog : Catalog) {data : Bytes} {opened : Reader}
    (opens : Reader.of catalog data = .ok opened) (earlier getters later : List Reader.Query)
    (still : ∀ query ∈ getters, query.Still) :
    let here := Dialogue.after Reader.ask opened earlier
    let came := Dialogue.after Reader.ask opened (earlier.filter (¬·.Still))
    let left := Dialogue.after Reader.ask here getters
    came = here.fresh ∧
      Dialogue.answers Reader.ask here getters = getters.map came.reply ∧
      left.fresh = came ∧
      Dialogue.answers Reader.ask left later = Dialogue.answers Reader.ask came later ∧
      (Dialogue.after Reader.ask left later).fresh = (Dialogue.after Reader.ask came later).fresh ∧
      Dialogue.answers SlotReader.ask (.of opened) (earlier ++ getters ++ later) =
        Dialogue.answers Reader.ask opened (earlier ++ getters ++ later) := by
  intro here came left
  have bare : opened.fresh = opened := by rw [Reader.openedAs opens]; rfl
  have reached : came = here.fresh := by
    have moves := Reader.movesAlone opened earlier
    rwa [bare] at moves
  have sited : here.Sited data := Reader.reachedSited opens earlier
  have stays : left.fresh = here.fresh := Reader.stillsFresh still here
  refine ⟨reached, ?_, stays.trans reached.symm, ?_, ?_, ?_⟩
  · rw [reached]
    exact Reader.answersFresh sited still
  · have same := Reader.laterFresh (Reader.callsSited sited getters) later
    rwa [stays, ← reached] at same
  · rw [Reader.afterFresh left, stays, reached]
  · exact SlotReader.answersAlike (Reader.reachedSited opens []) _

theorem refusedGettersLeaveNoTrace :
    let data : Bytes := versionMarker ++ [0x81, 0xFF, 0x25, 1, 0, 0, 0, 0, 0x81, 0x61]
    let earlier : List Reader.Query := [.call .next, .call .string, .call .next, .call .integer, .call .bool]
    let getters : List Reader.Query :=
      [.call .int, .call .string, .call .long, .symbol, .call .integerSize, .call .int]
    let later : List Reader.Query := [.call .next, .call .string]
    ∃ opened, Reader.of .empty data = .ok opened ∧ (∀ query ∈ getters, query.Still) ∧
      Dialogue.answers Reader.ask (Dialogue.after Reader.ask opened earlier) getters =
        [.failed .numericOverflow, .failed (.typeMismatch (.type .string) .int), .scalar (.long 0x100000000),
          .failed (.typeMismatch (.type .symbol) .int), .size .long, .failed .numericOverflow] ∧
      Dialogue.answers Reader.ask (Dialogue.after Reader.ask opened (earlier ++ getters)) later =
        [.type (some .string), .scalar (.string "a")] := by
  intro data earlier getters later
  let opened : Reader := ⟨.empty, .system, [], .before (.ofBytes data)⟩
  have opens : Reader.of .empty data = .ok opened := if_pos rfl
  have still : ∀ query ∈ getters, query.Still := by decide
  obtain ⟨-, answers, -, after, -⟩ := gettersLeaveNoTrace .empty opens earlier getters later still
  refine ⟨opened, opens, still, answers.trans (by decide +kernel), ?_⟩
  rw [Dialogue.afterAppend]
  exact after.trans (by decide +kernel)

end Ion
