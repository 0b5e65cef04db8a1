import Ion.Proofs.Dialogues
import Ion.Proofs.Truncation

/-! The calls of a reader and their answers. Three of them move it; the others decode the value it is on
or only look at it, and no answer of theirs says where the value stands. -/
namespace Ion

namespace Reader

inductive Query
  | call (request : Request)
  | depth
  | phase
  | type
  | isNull
  | fieldName
  | fieldToken
  | annotations
  | symbol
  | lob
  | lobSize
  deriving DecidableEq, Repr

inductive Answer
  | done
  | failed (e : IonError)
  | type (found : Option ValueType)
  | scalar (s : Scalar)
  | size (s : IntegerSize)
  | depth (n : Nat)
  | phase (p : Phase)
  | isNull (b : Bool)
  | fieldName (text : Option String)
  | fieldToken (token : Option SymbolToken)
  | annotations (tokens : List SymbolToken)
  | symbol (token : SymbolToken)
  | lob (raw : Bytes)
  | lobSize (n : Nat)
  deriving DecidableEq

def Answer.of (answer : α → Answer) : Except IonError α → Answer
  | .ok a => answer a
  | .error e => .failed e

def answered (answer : α → Answer) (call : Call α) (r : Reader) : Answer :=
  match call r with
  | .ok a _ => answer a
  | .error e _ => .failed e

def reply (r : Reader) : Query → Answer
  | .call .next => answered .type next r
  | .call .stepIn => answered (fun _ => .done) stepIn r
  | .call .stepOut => answered (fun _ => .done) stepOut r
  | .call .bool => answered (fun b => .scalar (.bool b)) bool r
  | .call .int => answered (fun n => .scalar (.int n)) int r
  | .call .long => answered (fun n => .scalar (.long n)) long r
  | .call .integer => answered (fun n => .scalar (.big n)) integer r
  | .call .double => answered (fun f => .scalar (.double f)) double r
  | .call .decimal => answered (fun d => .scalar (.decimal d)) decimal r
  | .call .timestamp => answered (fun t => .scalar (.timestamp t)) timestamp r
  | .call .string => answered (fun s => .scalar (.string s)) string r
  | .call .integerSize => answered .size integerSize r
  | .depth => .depth r.depth
  | .phase => .phase r.phase
  | .type => .type r.currentType?
  | .isNull => .isNull r.currentIsNull
  | .fieldName => .fieldName r.fieldName?
  | .fieldToken => .fieldToken r.fieldToken?
  | .annotations => .annotations r.annotations
  | .symbol => .of .symbol r.symbol
  | .lob => .of .lob r.lob
  | .lobSize => .of .lobSize r.lobSize

def ask (r : Reader) (query : Query) : Answer × Reader :=
  match query with
  | .call request => (r.reply query, r.perform request)
  | _ => (r.reply query, r)

end Reader

def Position.keeping (type : ValueType) : Position → Position
  | .on h none => .on h (if h.type = type ∧ h.isNull = false then h.scalar.toOption else none)
  | position => position

namespace Reader

def decoded (r : Reader) (type : ValueType) : Except IonError Variant :=
  match r.header (.type type) with
  | .error e => .error e
  | .ok h =>
    match r.position with
    | .on _ (some s) => .ok (some s)
    | _ => h.scalar.map some

variable {r s : Reader}

theorem headerAdmitted {expected : Expectation} {h : Header} (asked : r.header expected = .ok h) :
    expected.admits h.type = true ∧ h.isNull = false := by
  unfold header at asked
  split at asked
  · contradiction
  · split at asked
    · rename_i admitted
      split at asked
      · contradiction
      · rename_i something
        cases asked
        exact ⟨admitted, by simpa using something⟩
    · contradiction

theorem keepsNothing {type : ValueType} {e : IonError} (refused : r.decoded type = .error e) :
    r.position.keeping type = r.position := by
  cases stands : r.position with
  | before | exhausted => rfl
  | on h decoded =>
    cases decoded with
    | some => rfl
    | none =>
      by_cases fits : h.type = type ∧ h.isNull = false
      · have asked : r.header (.type type) = .ok h := by
          simp [header, current?, stands, Expectation.admits, fits]
        simp only [Reader.decoded, asked, stands] at refused
        cases said : h.scalar with
        | error => simp only [Position.keeping, said, Except.toOption, ite_self]
        | ok => simp [said, Except.map] at refused
      · simp only [Position.keeping, if_neg fits]

theorem scalarRuns (type : ValueType) (r : Reader) :
    scalar type r = match r.decoded type with
      | .ok found => .ok found { r with position := r.position.keeping type }
      | .error e => .error e r := by
  unfold scalar Reader.decoded
  cases asked : r.header (.type type) with
  | error => rfl
  | ok h =>
    obtain ⟨decoded, stands⟩ := currentAt (headerCurrent asked)
    have fits : h.type = type ∧ h.isNull = false := by
      have admitted := headerAdmitted asked
      simp only [Expectation.admits, beq_iff_eq] at admitted
      exact ⟨admitted.1.symm, admitted.2⟩
    obtain ⟨_, _, _, position⟩ := r
    subst stands
    cases decoded with
    | some => rfl
    | none =>
      simp only [Position.keeping, if_pos fits]
      cases h.scalar <;> rfl

theorem gettingRuns (type : ValueType) (get : Variant → Option α) (e : IonError) (r : Reader) :
    getting type get e r = match r.decoded type with
      | .error e => .error e r
      | .ok found =>
        match get found with
        | some a => .ok a { r with position := r.position.keeping type }
        | none => .error e { r with position := r.position.keeping type } := by
  simp only [getting, bind, EStateM.bind, scalarRuns]
  cases r.decoded type with
  | error => rfl
  | ok found =>
    dsimp only
    cases get found <;> rfl

theorem integerSizeRuns (r : Reader) :
    integerSize r = if r.currentType? = some .int ∧ r.currentIsNull = false then
        match r.decoded .int with
        | .error e => .error e r
        | .ok found => .ok found.integerSize { r with position := r.position.keeping .int }
      else .ok .unknown r := by
  unfold integerSize
  split
  · simp only [bind, EStateM.bind, scalarRuns]
    cases r.decoded .int <;> rfl
  · rfl

theorem askSited {data : Bytes} (sited : r.Sited data) (query : Query) : (r.ask query).2.Sited data := by
  cases query with
  | call request => exact performSited request sited
  | _ => exact sited

theorem openedAs {catalog : Catalog} {data : Bytes} {opened : Reader}
    (opens : Reader.of catalog data = .ok opened) : opened = ⟨catalog, .system, [], .before (.ofBytes data)⟩ := by
  unfold Reader.of at opens
  split at opens
  · cases opens
    rfl
  · contradiction

theorem callsSited {data : Bytes} (sited : r.Sited data) (calls : List Query) :
    (Dialogue.after ask r calls).Sited data :=
  Dialogue.invariant (Reader.Sited data) sited (Dialogue.alongAll (fun _ _ => trivial) _ calls)
    fun sited _ => askSited sited _

theorem reachedSited {catalog : Catalog} {data : Bytes} {opened : Reader}
    (opens : Reader.of catalog data = .ok opened) (calls : List Query) :
    (Dialogue.after ask opened calls).Sited data := by
  refine callsSited ?_ calls
  rw [openedAs opens]
  exact .before .start .top

theorem askAnswer (r : Reader) (query : Query) : (r.ask query).1 = r.reply query := by
  cases query <;> rfl

namespace Query

def decodes? : Query → Option ValueType
  | .call .bool => some .bool
  | .call .int | .call .long | .call .integer | .call .integerSize => some .int
  | .call .double => some .float
  | .call .decimal => some .decimal
  | .call .timestamp => some .timestamp
  | .call .string => some .string
  | _ => none

def Still (query : Query) : Prop :=
  query ≠ .call .next ∧ query ≠ .call .stepIn ∧ query ≠ .call .stepOut

inductive Standing : Query → Prop
  | stepIn : Standing (.call .stepIn)
  | stepOut : Standing (.call .stepOut)
  | still {query} (still : query.Still) : Standing query

theorem nextOrStanding (query : Query) : query = .call .next ∨ query.Standing := by
  by_cases next : query = .call .next
  · exact .inl next
  by_cases stepIn : query = .call .stepIn
  · exact .inr (stepIn ▸ .stepIn)
  by_cases stepOut : query = .call .stepOut
  · exact .inr (stepOut ▸ .stepOut)
  · exact .inr (.still ⟨next, stepIn, stepOut⟩)

theorem Standing.noNext {query : Query} (standing : query.Standing) : query ≠ .call .next := by
  cases standing with
  | stepIn | stepOut => exact nofun
  | still still => exact still.1

def leaves (query : Query) (position : Position) : Position :=
  match query.decodes? with
  | some asked => position.keeping asked
  | none => position

end Query

theorem gettingLeaves (type : ValueType) (get : Variant → Option α) (e : IonError) (r : Reader) :
    left (getting type get e) r = { r with position := r.position.keeping type } := by
  rw [left, gettingRuns]
  cases asked : r.decoded type with
  | error e => simp only [keepsNothing asked]
  | ok found =>
    dsimp only
    cases get found <;> rfl

theorem integerSizeLeaves (r : Reader) :
    left integerSize r = { r with position := r.position.keeping .int } := by
  rw [left, integerSizeRuns]
  by_cases integer : r.currentType? = some .int ∧ r.currentIsNull = false
  · rw [if_pos integer]
    cases asked : r.decoded .int with
    | error e => simp only [keepsNothing asked]
    | ok found => rfl
  · rw [if_neg integer]
    have same : r.position.keeping .int = r.position := by
      cases stands : r.position with
      | before | exhausted => rfl
      | on h decoded =>
        have unfit : ¬(h.type = .int ∧ h.isNull = false) := by
          simpa [currentType?, currentIsNull, current?, stands] using integer
        cases decoded with
        | some => rfl
        | none => simp only [Position.keeping, if_neg unfit]
    rw [same]

theorem askStill {query : Query} (still : query.Still) (r : Reader) :
    (r.ask query).2 = { r with position := query.leaves r.position } := by
  cases query with
  | call request =>
    cases request with
    | next => exact absurd rfl still.1
    | stepIn => exact absurd rfl still.2.1
    | stepOut => exact absurd rfl still.2.2
    | integerSize => exact integerSizeLeaves r
    | bool | int | long | integer | double | decimal | timestamp | string =>
      exact gettingLeaves _ _ _ r
  | depth | phase | type | isNull | fieldName | fieldToken | annotations | symbol | lob | lobSize => rfl

theorem Sited.cached {data : Bytes} {h : Header} (sited : r.Sited data) {s : Scalar}
    (stands : r.position = .on h (some s)) : h.scalar = .ok s := by
  rw [Sited, stands] at sited
  cases sited with
  | on found enclosed cached => exact cached s rfl

theorem decodedNow {data : Bytes} {h : Header} (sited : r.Sited data) (current : r.current? = some h)
    (something : h.isNull = false) : r.decoded h.type = h.scalar.map some := by
  have asked : r.header (.type h.type) = .ok h := by
    simp [header, current, Expectation.admits, something]
  obtain ⟨decoded, stands⟩ := currentAt current
  rw [Reader.decoded, asked, stands]
  cases decoded with
  | none => rfl
  | some s =>
    rw [sited.cached stands]
    rfl

theorem stillCurrent {query : Query} {h : Header} (still : query.Still) (current : r.current? = some h) :
    (r.ask query).2.current? = some h := by
  obtain ⟨decoded, stands⟩ := currentAt current
  rw [askStill still, stands]
  unfold Query.leaves
  cases query.decodes? with
  | none => rfl
  | some asked => cases decoded <;> rfl

def entrance? (r : Reader) : Option (Entered × Cursor) :=
  r.current?.bind fun h => h.container?.map fun kind => (⟨kind, h.after⟩, h.body)

theorem askStepIn (r : Reader) :
    (r.ask (.call .stepIn)).2 = match r.entrance? with
      | some (e, body) => { r with inside := e :: r.inside, position := .before body }
      | none => r := by
  simp only [ask, perform, left, stepIn, entrance?]
  cases r.current? with
  | none => rfl
  | some h =>
    simp only [Option.bind_some, Header.container?]
    cases h.type.container? <;> cases h.isNull <;> rfl

theorem askStepOut (r : Reader) :
    (r.ask (.call .stepOut)).2 = match r.inside with
      | e :: outer => { r with inside := outer, position := .before e.resume }
      | [] => r := by
  simp only [ask, perform, left, stepOut]
  cases r.inside <;> rfl

end Reader

def Step.answer : Step → Reader.Answer
  | exhausted _ => .type none
  | failed e _ => .failed e
  | value h => .type (some h.type)

namespace TopStep

def answer : TopStep → Reader.Answer
  | exhausted _ => .type none
  | halted halt => .failed halt.error
  | value h => .type (some h.type)

def inside : TopStep → List Entered
  | halted halt => halt.inside
  | _ => []

def position : TopStep → Position
  | exhausted c => .exhausted c
  | halted halt => halt.position
  | value h => .on h none

end TopStep

theorem nextTopFails {c c' : Cursor} {e : IonError} (inside : ¬c.atEnd)
    (scan : Scan.topItem c = .error e c') (catalog : Catalog) (symbols : SymbolTable) :
    nextTop catalog symbols c = (symbols, .halted (.before e c')) := by
  rw [nextTop, if_neg inside]
  split <;> rename_i read <;> rw [scan] at read <;> cases read
  rfl

namespace Reader

variable {r s : Reader}

theorem askNextEnded (ended : r.ahead? = none) : r.ask (.call .next) = (.type none, r) := by
  simp only [ask, reply, perform, answered, left, nextAhead, ended]

theorem askNextWithin {e : Entered} {outer : List Entered} (inside : r.inside = e :: outer) {c : Cursor}
    (ahead : r.ahead? = some c) :
    r.ask (.call .next) =
      ((nextChild e.container c).answer, { r with position := (nextChild e.container c).position }) := by
  simp only [ask, reply, perform, answered, left, nextAhead, ahead, advance, inside]
  cases nextChild e.container c <;> rfl

theorem askNextStays {e : Entered} {outer : List Entered} (inside : r.inside = e :: outer) :
    ∃ position, (r.ask (.call .next)).2 = { r with position } := by
  cases ahead : r.ahead? with
  | none =>
    rw [askNextEnded ahead]
    exact ⟨r.position, rfl⟩
  | some c =>
    rw [askNextWithin inside ahead]
    exact ⟨_, rfl⟩

theorem askNextTop (inside : r.inside = []) {c : Cursor} (ahead : r.ahead? = some c) :
    r.ask (.call .next) =
      let walk := nextTop r.catalog r.symbols c
      (walk.2.answer, ⟨r.catalog, walk.1, walk.2.inside, walk.2.position⟩) := by
  simp only [ask, reply, perform, answered, left, nextAhead, ahead, advance, inside]
  cases nextTop r.catalog r.symbols c with
  | mk symbols step =>
    cases step with
    | exhausted | value => simp only [TopStep.answer, TopStep.inside, TopStep.position]
    | halted halt =>
      simp only [TopStep.answer, TopStep.inside, TopStep.position, Reader.halt, inside, List.append_nil]

end Reader

structure Header.Alike (h h' : Header) : Prop where
  descriptor : h'.descriptor = h.descriptor
  type : h'.type = h.type
  field : h'.field = h.field
  annotations : h'.annotations = h.annotations
  length : h'.length = h.length
  payload : h'.payload = h.payload

namespace Header.Alike

variable {h h' : Header}

theorem refl (h : Header) : h.Alike h := ⟨rfl, rfl, rfl, rfl, rfl, rfl⟩

theorem isNull (alike : h.Alike h') : h'.isNull = h.isNull := by
  rw [Header.isNull, Header.isNull, alike.descriptor]

theorem scalar (alike : h.Alike h') : h'.scalar = h.scalar := by
  rw [Header.scalar, Header.scalar, alike.type, alike.descriptor, alike.payload]

end Header.Alike

inductive Position.Alike : Position → Position → Prop
  | before {c c' : Cursor} : Alike (.before c) (.before c')
  | on {h h' : Header} (same : h.Alike h') (decoded : Variant) : Alike (.on h decoded) (.on h' decoded)
  | exhausted {c c' : Cursor} : Alike (.exhausted c) (.exhausted c')

theorem Position.Alike.refl (position : Position) : position.Alike position := by
  cases position with
  | before => exact .before
  | on h decoded => exact .on (.refl h) decoded
  | exhausted => exact .exhausted

def SymbolToken.masked (hidden : Nat → Bool) (token : SymbolToken) : SymbolToken :=
  if token.sid.any hidden then { token with text := none } else token

namespace Reader

def Answer.masked (hidden : Nat → Bool) (field : Option Nat) : Answer → Answer
  | .fieldName text => .fieldName (if field.any hidden then none else text)
  | .fieldToken token => .fieldToken (token.map (SymbolToken.masked hidden))
  | .annotations tokens => .annotations (tokens.map (SymbolToken.masked hidden))
  | .symbol token => .symbol (token.masked hidden)
  | answer => answer

theorem Answer.maskedNothing (answer : Answer) (field : Option Nat) :
    answer.masked (fun _ => false) field = answer := by
  have same : SymbolToken.masked (fun _ => false) = id := by
    funext token
    simp [SymbolToken.masked]
  cases answer <;> simp [masked, same]

def field? (r : Reader) : Option Nat := r.current?.bind Header.field

/-- Both stand on the same value, or on none, and know the same texts of the symbols that are not
hidden. -/
structure Like (hidden : Nat → Bool) (r s : Reader) : Prop where
  depth : s.depth = r.depth
  position : r.position.Alike s.position
  texts sid (shown : hidden sid = false) : s.symbols.text? sid = r.symbols.text? sid

namespace Like

variable {hidden : Nat → Bool} {r s : Reader}

theorem current (like : Like hidden r s) :
    (r.current? = none ∧ s.current? = none) ∨
      ∃ h h', r.current? = some h ∧ s.current? = some h' ∧ h.Alike h' := by
  have alike := like.position
  unfold current?
  generalize r.position = p, s.position = p' at alike ⊢
  cases alike with
  | before | exhausted => exact .inl ⟨rfl, rfl⟩
  | on same decoded => exact .inr ⟨_, _, rfl, rfl, same⟩

theorem header (like : Like hidden r s) (expected : Expectation) :
    (∃ e, r.header expected = .error e ∧ s.header expected = .error e) ∨
      ∃ h h', r.header expected = .ok h ∧ s.header expected = .ok h' ∧ h.Alike h' := by
  obtain ⟨absent, absent'⟩ | ⟨h, h', current, current', alike⟩ := like.current
  · exact .inl ⟨.noCurrentValue, by simp [Reader.header, absent], by simp [Reader.header, absent']⟩
  · simp only [Reader.header, current, current', alike.type, alike.isNull]
    by_cases admitted : expected.admits h.type = true
    · cases h.isNull with
      | true => exact .inl ⟨.nullValue, by simp [admitted], by simp [admitted]⟩
      | false => exact .inr ⟨h, h', by simp [admitted], by simp [admitted], alike⟩
    · exact .inl ⟨.typeMismatch expected h.type, by simp [admitted], by simp [admitted]⟩

theorem decoded (like : Like hidden r s) (type : ValueType) : s.decoded type = r.decoded type := by
  unfold Reader.decoded
  obtain ⟨e, asked, asked'⟩ | ⟨h, h', asked, asked', alike⟩ := like.header (.type type)
  · rw [asked, asked']
  · have position := like.position
    rw [asked, asked']
    dsimp only
    rw [alike.scalar]
    generalize r.position = p, s.position = p' at position ⊢
    cases position with
    | before | exhausted => rfl
    | on same decoded => cases decoded <;> rfl

theorem token (like : Like hidden r s) (sid : Nat) :
    (s.symbols.token sid).masked hidden = (r.symbols.token sid).masked hidden := by
  cases shown : hidden sid with
  | true => simp [SymbolTable.token, SymbolToken.masked, shown]
  | false => simp [SymbolTable.token, SymbolToken.masked, shown, like.texts sid shown]

theorem getting (like : Like hidden r s) (answer : α → Answer) (type : ValueType)
    (get : Variant → Option α) (e : IonError) :
    answered answer (Reader.getting type get e) s = answered answer (Reader.getting type get e) r := by
  simp only [answered, gettingRuns, like.decoded type]
  cases r.decoded type with
  | error => rfl
  | ok found =>
    dsimp only
    cases get found <;> rfl

theorem field (like : Like hidden r s) : s.field? = r.field? := by
  unfold field?
  obtain ⟨absent, absent'⟩ | ⟨h, h', current, current', alike⟩ := like.current
  · rw [absent, absent']
  · rw [current, current']
    exact alike.field

theorem kind (like : Like hidden r s) :
    s.currentType? = r.currentType? ∧ s.currentIsNull = r.currentIsNull := by
  unfold currentType? currentIsNull
  obtain ⟨absent, absent'⟩ | ⟨h, h', current, current', alike⟩ := like.current
  · rw [absent, absent']
    exact ⟨rfl, rfl⟩
  · rw [current, current']
    exact ⟨congrArg some alike.type, alike.isNull⟩

theorem integerSize (like : Like hidden r s) :
    answered .size Reader.integerSize s = answered .size Reader.integerSize r := by
  simp only [answered, integerSizeRuns, like.kind.1, like.kind.2, like.decoded .int]
  by_cases integer : r.currentType? = some .int ∧ r.currentIsNull = false
  · simp only [if_pos integer]
    cases r.decoded .int <;> rfl
  · simp only [if_neg integer]

theorem stepIn (like : Like hidden r s) : s.reply (.call .stepIn) = r.reply (.call .stepIn) := by
  simp only [reply, answered, Reader.stepIn]
  obtain ⟨absent, absent'⟩ | ⟨h, h', current, current', alike⟩ := like.current
  · rw [absent, absent']
  · rw [current, current']
    dsimp only
    rw [alike.type, alike.isNull]
    cases h.type.container? <;> cases h.isNull <;> rfl

theorem stepOut (like : Like hidden r s) : s.reply (.call .stepOut) = r.reply (.call .stepOut) := by
  have depth := like.depth
  simp only [Reader.depth] at depth
  simp only [reply, answered, Reader.stepOut]
  cases inside : r.inside <;> cases inside' : s.inside <;> simp_all

theorem annotations (like : Like hidden r s) :
    s.annotations.map (SymbolToken.masked hidden) = r.annotations.map (SymbolToken.masked hidden) := by
  unfold Reader.annotations
  obtain ⟨absent, absent'⟩ | ⟨h, h', current, current', alike⟩ := like.current
  · rw [absent, absent']
  · rw [current, current']
    simp [alike.annotations, like.token]

theorem symbol (like : Like hidden r s) (field : Option Nat) :
    (Answer.of .symbol s.symbol).masked hidden field = (Answer.of .symbol r.symbol).masked hidden field := by
  unfold Reader.symbol
  obtain ⟨e, asked, asked'⟩ | ⟨h, h', asked, asked', alike⟩ := like.header (.type .symbol)
  · rw [asked, asked']
    rfl
  · simp only [asked, asked', alike.payload, bind, Except.bind]
    cases Payload.symbol h.payload with
    | error => rfl
    | ok sid => exact congrArg Answer.symbol (like.token sid)

theorem reply (like : Like hidden r s) {query : Query} (standing : query.Standing) :
    (s.reply query).masked hidden r.field? = (r.reply query).masked hidden r.field? := by
  cases query with
  | call request =>
    cases request with
    | next => exact absurd rfl standing.noNext
    | stepIn => rw [like.stepIn]
    | stepOut => rw [like.stepOut]
    | integerSize => exact congrArg (Answer.masked hidden r.field?) like.integerSize
    | bool | int | long | integer | double | decimal | timestamp | string =>
      exact congrArg (Answer.masked hidden r.field?) (like.getting _ _ _ _)
  | depth => exact congrArg (Answer.masked hidden r.field? <| .depth ·) like.depth
  | phase =>
    have same : s.phase = r.phase := by
      have alike := like.position
      unfold Reader.phase
      generalize r.position = p, s.position = p' at alike ⊢
      cases alike <;> rfl
    exact congrArg (Answer.masked hidden r.field? <| .phase ·) same
  | type => exact congrArg (Answer.masked hidden r.field? <| .type ·) like.kind.1
  | isNull => exact congrArg (Answer.masked hidden r.field? <| .isNull ·) like.kind.2
  | fieldName =>
    have named : s.fieldName? = s.field?.bind s.symbols.text? := rfl
    have named' : r.fieldName? = r.field?.bind r.symbols.text? := rfl
    simp only [Reader.reply, Answer.masked, named, named', like.field]
    cases r.field? with
    | none => rfl
    | some sid => cases shown : hidden sid <;> simp [shown, like.texts]
  | fieldToken =>
    have named : s.fieldToken? = s.field?.map s.symbols.token := rfl
    have named' : r.fieldToken? = r.field?.map r.symbols.token := rfl
    simp only [Reader.reply, Answer.masked, named, named', like.field]
    cases r.field? with
    | none => rfl
    | some sid => exact congrArg (fun token => Answer.fieldToken (some token)) (like.token sid)
  | annotations => exact congrArg Answer.annotations like.annotations
  | symbol => exact like.symbol _
  | lob | lobSize =>
    simp only [Reader.reply, lob, lobSize]
    obtain ⟨e, asked, asked'⟩ | ⟨h, h', asked, asked', alike⟩ := like.header .lob
    · rw [asked, asked']
    · simp only [asked, asked', bind, Except.bind, pure, Except.pure, alike.payload, alike.length]

theorem answerSame {r s : Reader} (like : Like (fun _ => false) r s) {query : Query}
    (standing : query.Standing) : (s.ask query).1 = (r.ask query).1 := by
  have same := like.reply standing
  rwa [Answer.maskedNothing, Answer.maskedNothing, ← askAnswer, ← askAnswer] at same

end Like

end Reader

end Ion
