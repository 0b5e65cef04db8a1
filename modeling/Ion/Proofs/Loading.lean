import Ion.Proofs.Queries
import Ion.Proofs.Symbols

/-! Loading a symbol table with the steps and getters of the reader itself. They can fail at many places, but
the table in force is taken and replaced only when nothing is left that can fail. -/
namespace Ion

def Children.headers : Children → List Header
  | done _ | failed _ _ => []
  | child h rest => h :: rest.headers

namespace Header

def isMarker (h : Header) : Bool := !h.isNull && h.field == some Sid.imports && h.type == .symbol

def asksAppend (h : Header) : Bool := (Payload.symbol h.payload).toOption == some Sid.symbolTable

def appends (h : Header) : Bool :=
  ((children .struct h.body).headers.filter isMarker).getLast?.any asksAppend

end Header

namespace TableEntry

variable {h : Header} {entry read : TableEntry}

theorem memberAppend (ok : entry.member h = .ok read) :
    read.append = if h.isMarker then h.asksAppend else entry.append := by
  have is : h.isMarker = true ↔ h.isNull = false ∧ h.field.getD 0 = Sid.imports ∧ h.type = .symbol := by
    cases named : h.field <;> simp [Header.isMarker, named, Sid.imports, and_assoc]
  unfold member at ok
  dsimp only at ok
  by_cases null : h.isNull = true
  · rw [if_pos null] at ok
    cases ok
    rw [if_neg (by simp [is, null])]
  rw [if_neg null] at ok
  by_cases marker : h.field.getD 0 = Sid.imports ∧ h.type = .symbol
  · rw [if_pos marker] at ok
    obtain ⟨sid, said, ⟨⟩⟩ := exceptOk ok
    rw [if_pos (is.mpr ⟨by simpa using null, marker⟩), Header.asksAppend, mapErrorOk.mp said]
    rfl
  · have other : ¬h.isMarker = true := fun holds => marker (is.mp holds).2
    rw [if_neg marker] at ok
    rw [if_neg other]
    split at ok
    · obtain ⟨imports, -, ⟨⟩⟩ := exceptOk ok
      rfl
    · split at ok
      · obtain ⟨symbols, -, ⟨⟩⟩ := exceptOk ok
        rfl
      · cases ok
        rfl

theorem foldAppend {walk : Children} (ok : walk.fold member entry = .ok read) :
    read.append = ((walk.headers.filter Header.isMarker).getLast?.map Header.asksAppend).getD entry.append := by
  induction walk generalizing entry with
  | done c =>
    cases ok
    rfl
  | failed e c => contradiction
  | child h rest ih =>
    obtain ⟨middle, first, later⟩ := exceptOk ok
    rw [ih later, memberAppend first, Children.headers]
    cases marker : h.isMarker with
    | false => rw [List.filter_cons_of_neg (by simp [marker])]; rfl
    | true =>
      rw [List.filter_cons_of_pos marker, List.getLast?_cons]
      cases (rest.headers.filter Header.isMarker).getLast? <;> rfl

theorem readAppend (ok : TableEntry.read h = .ok read) : read.append = h.appends := by
  rw [TableEntry.read, Header.fold, mapErrorOk] at ok
  rw [foldAppend ok, Header.appends]
  cases (((children .struct h.body).headers.filter Header.isMarker).getLast?) <;> rfl

end TableEntry

theorem SymbolTable.pushedAll (table : SymbolTable) (symbols : List (Option String)) :
    symbols.foldl (fun table text => (table.pushLocal text).2) table =
      { table with locals := table.locals ++ symbols } := by
  induction symbols generalizing table with
  | nil => simp
  | cons text rest ih =>
    rw [List.foldl_cons, ih, pushLocal]
    simp

namespace Reader

def Stays (call : Call α) : Prop :=
  ∀ r a s, call r = .ok a s → s.inside = r.inside ∧ s.ahead? = r.ahead?

structure Visit (σ : Type) where
  run : σ → ValueType → Call σ
  stays : ∀ s type, Stays (run s type)

theorem nextInside {r s : Reader} {type : Option ValueType} (found : next r = .ok type s) :
    s.inside = r.inside := by
  rw [nextAhead] at found
  cases ahead : r.ahead? with
  | none =>
    simp only [ahead] at found
    cases found
    rfl
  | some c =>
    obtain ⟨catalog, symbols, inside, position⟩ := r
    simp only [ahead, advance] at found
    cases inside <;> dsimp only at found <;> split at found <;> cases found <;> rfl

def along (visit : Visit σ) (s : σ) : Call σ := fun r =>
  match _step : next r with
  | .error e r' => .error e r'
  | .ok none r' => .ok s r'
  | .ok (some type) on =>
    match _run : visit.run s type on with
    | .error e r' => .error e r'
    | .ok s r' => along visit s r'
termination_by r => r.unread
decreasing_by
  -- what is done at a value comes back to it, so the step alone brings the end nearer
  have read := nextReads _step
  have same := (visit.stays _ _ _ _ _ _run).2
  rwa [unread, same, ← unread]

theorem alongStep (visit : Visit σ) (s : σ) (r : Reader) :
    along visit s r = match next r with
      | .error e r' => .error e r'
      | .ok none r' => .ok s r'
      | .ok (some type) on =>
        match visit.run s type on with
        | .error e r' => .error e r'
        | .ok s r' => along visit s r' := by
  rw [along]
  split <;> rename_i step <;> rw [step]
  dsimp only
  split <;> rename_i run <;> rw [run]

theorem alongInside (visit : Visit σ) {s t : σ} {r r' : Reader} (ok : along visit s r = .ok t r') :
    r'.inside = r.inside := by
  fun_induction along visit s r with
  | case1 | case3 => contradiction
  | case2 s r on step =>
    cases ok
    exact nextInside step
  | case4 s r type on step s' r'' run ih =>
    exact (ih ok).trans ((visit.stays _ _ _ _ _ run).1.trans (nextInside step))

def entering (visit : Visit σ) (s : σ) : Call σ := do
  stepIn
  let s ← along visit s
  stepOut
  return s

namespace Stays

variable {call : Call α} {later : α → Call β}

theorem pure (a : α) : Stays (pure a) := by
  rintro r _ _ ⟨⟩
  exact ⟨rfl, rfl⟩

theorem bind (first : Stays call) (second : ∀ a, Stays (later a)) : Stays (call >>= later) := by
  intro r b t ok
  obtain ⟨a, s, one, two⟩ := bindOk ok
  have one := first r a s one
  have two := second a s b t two
  exact ⟨two.1.trans one.1, two.2.trans one.2⟩

theorem got {next : Reader → Call α} (stays : ∀ r, Stays (next r)) : Stays (do next (← get)) :=
  fun r => stays r r

theorem either {condition : Prop} [Decidable condition] {other : Call α} (first : Stays call)
    (second : Stays other) : Stays (if condition then call else other) := by
  split
  · exact first
  · exact second

end Stays

theorem gettingPlace (type : ValueType) (form : Variant → Option α) (e : IonError) (r : Reader) :
    (left (getting type form e) r).inside = r.inside ∧ (left (getting type form e) r).ahead? = r.ahead? := by
  rw [gettingLeaves]
  obtain ⟨catalog, symbols, inside, position⟩ := r
  cases position with
  | before | exhausted => exact ⟨rfl, rfl⟩
  | on h decoded => cases decoded <;> exact ⟨rfl, rfl⟩

theorem gettingStays (type : ValueType) (form : Variant → Option α) (e : IonError) :
    Stays (getting type form e) := by
  intro r a s ok
  have place := gettingPlace type form e r
  rwa [left, ok] at place

theorem stepInOk {r s : Reader} (ok : stepIn r = .ok () s) :
    ∃ h kind, r.current? = some h ∧
      s = { r with inside := ⟨kind, h.after⟩ :: r.inside, position := .before h.body } := by
  unfold stepIn at ok
  split at ok
  · contradiction
  · rename_i h current
    split at ok
    · contradiction
    · rename_i kind holds
      split at ok <;> cases ok
      exact ⟨h, kind, current, rfl⟩

theorem enteringStays (visit : Visit σ) (s : σ) : Stays (entering visit s) := by
  intro r t r' ok
  obtain ⟨_, inner, stepped, ok⟩ := bindOk ok
  obtain ⟨s', last, ran, ok⟩ := bindOk ok
  obtain ⟨_, outer, left, ok⟩ := bindOk ok
  cases ok
  have inside := alongInside visit ran
  obtain ⟨h, kind, current, rfl⟩ := stepInOk stepped
  obtain ⟨decoded, stands⟩ := currentAt current
  simp only [stepOut, inside] at left
  cases left
  exact ⟨rfl, by simp only [ahead?, stands]⟩

def attempt (call : Call α) : Call (Option α) := fun r =>
  match call r with
  | .ok a r => .ok (some a) r
  | .error _ r => .ok none r

theorem attemptStays (type : ValueType) (form : Variant → Option α) (e : IonError) :
    Stays (attempt (getting type form e)) := by
  intro r a s ok
  have place := gettingPlace type form e r
  unfold attempt at ok
  rw [left] at place
  cases ran : getting type form e r <;> rw [ran] at ok place <;> cases ok <;> exact place

def symbolToken : Call SymbolToken := fun r =>
  match r.symbol with
  | .ok token => .ok token r
  | .error e => .error e r

theorem symbolTokenStays : Stays symbolToken := by
  intro r token s ok
  unfold symbolToken at ok
  split at ok <;> cases ok
  exact ⟨rfl, rfl⟩

def importMember : Visit ImportEntry where
  run entry type := do
    let r ← get
    if r.currentIsNull then return entry
    else if r.field? = some Sid.name ∧ type = .string then return { entry with name := some (← string) }
    else if r.field? = some Sid.version ∧ type = .int then return { entry with version := ← attempt long }
    else if r.field? = some Sid.maxId ∧ type = .int then return { entry with maxId := ← attempt long }
    else return entry
  stays _ _ := .got fun _ =>
    .either (.pure _) <| .either (.bind (gettingStays _ _ _) fun _ => .pure _) <|
      .either (.bind (attemptStays _ _ _) fun _ => .pure _) <|
        .either (.bind (attemptStays _ _ _) fun _ => .pure _) (.pure _)

def importEntries : Visit (List ImportEntry) where
  run entries type := do
    let r ← get
    if type = .struct ∧ r.currentIsNull = false then
      return entries ++ [← entering importMember ⟨none, none, none⟩]
    else return entries
  stays _ _ := .got fun _ => .either (.bind (enteringStays _ _) fun _ => .pure _) (.pure _)

def localSymbols : Visit (List (Option String)) where
  run symbols type := do
    let r ← get
    if type = .string ∧ r.currentIsNull = false then return symbols ++ [some (← string)]
    else return symbols ++ [none]
  stays _ _ := .got fun _ => .either (.bind (gettingStays _ _ _) fun _ => .pure _) (.pure _)

def tableMember : Visit TableEntry where
  run entry type := do
    let r ← get
    if r.currentIsNull then return entry
    else if r.field? = some Sid.imports ∧ type = .symbol then
      return { entry with append := (← symbolToken).sid == some Sid.symbolTable }
    else if r.field? = some Sid.imports ∧ type = .list then
      return { entry with imports := ← entering importEntries [] }
    else if r.field? = some Sid.symbols ∧ type = .list then
      return { entry with symbols := ← entering localSymbols [] }
    else return entry
  stays _ _ := .got fun _ =>
    .either (.pure _) <| .either (.bind symbolTokenStays fun _ => .pure _) <|
      .either (.bind (enteringStays _ _) fun _ => .pure _) <|
        .either (.bind (enteringStays _ _) fun _ => .pure _) (.pure _)

def resolve (entries : List ImportEntry) : Call Imports := fun r =>
  match entries.foldlM (ImportEntry.addTo r.catalog) .system with
  | .ok imports => .ok imports r
  | .error fault => .error (.badSymbolTable fault) r

def takeSymbols : Call SymbolTable := fun r => .ok r.symbols { r with symbols := .system }

def putSymbols (symbols : SymbolTable) : Call Unit := fun r => .ok () { r with symbols }

def extend (imports : Option Imports) (added : List (Option String)) : Call Unit := do
  let base := (imports.map Imports.maxId).getD (← get).symbols.maxId
  if base + added.length ≤ Sid.last then
    let table ← match imports with
      | some imports => pure (.ofImports imports)
      | none => takeSymbols
    putSymbols (added.foldl (fun table text => (table.pushLocal text).2) table)
  else throw (.badSymbolTable (.localRange added.length base))

def install (entry : TableEntry) : Call Unit := do
  let imports ← if entry.append then pure none else some <$> resolve entry.imports
  extend imports entry.symbols

def loadTable : Call Unit := do
  install (← entering tableMember ⟨false, [], []⟩)

def Finds (r : Reader) (h : Header) (call : Call α) (walk : Except Halt α) : Prop :=
  match walk with
  | .ok a =>
    ∃ position, call r = .ok a { r with position } ∧ ({ r with position } : Reader).ahead? = some h.after
  | .error halt => call r = .error halt.error (r.halt halt)

variable {r : Reader} {h : Header}

namespace Finds

theorem pure (on : r.position = .on h none) (a : α) : Finds r h (pure a) (.ok a) :=
  ⟨r.position, rfl, by simp only [ahead?, on]⟩

theorem map {call : Call α} {walk : Except Halt α} (finds : Finds r h call walk) (f : α → β) :
    Finds r h (do return f (← call)) (do return f (← walk)) := by
  cases walk with
  | error halt =>
    have failed : call r = .error halt.error (r.halt halt) := finds
    change (call >>= fun a => Pure.pure (f a)) r = .error halt.error (r.halt halt)
    simp only [bind, EStateM.bind, failed]
  | ok a =>
    obtain ⟨position, ok, behind⟩ := finds
    refine ⟨position, ?_, behind⟩
    simp only [bind, EStateM.bind, ok]
    rfl

theorem got {next : Reader → Call α} {walk : Except Halt α} (finds : Finds r h (next r) walk) :
    Finds r h (do next (← get)) walk := finds

theorem either {condition condition' : Prop} [Decidable condition] [Decidable condition'] {call other : Call α}
    {walk otherwise : Except Halt α} (same : condition ↔ condition')
    (first : condition' → Finds r h call walk) (second : ¬condition' → Finds r h other otherwise) :
    Finds r h (if condition then call else other) (if condition' then walk else otherwise) := by
  by_cases holds : condition'
  · rw [if_pos (same.mpr holds), if_pos holds]
    exact first holds
  · rw [if_neg (mt same.mp holds), if_neg holds]
    exact second holds

end Finds

theorem nextWithin {e : Entered} {outer : List Entered} (inside : r.inside = e :: outer) {c : Cursor}
    (ahead : r.ahead? = some c) :
    next r = match nextChild e.container c with
      | .exhausted c => .ok none { r with position := .exhausted c }
      | .failed e c => .error e { r with position := .before c }
      | .value h => .ok (some h.type) { r with position := .on h none } := by
  cases found : nextChild e.container c <;> simp only [nextAhead, ahead, advance, inside, found]

theorem alongFinds {visit : Visit σ} {step : σ → Header → Except Halt σ}
    (finds : ∀ {r : Reader} {child : Header} s, r.position = .on child none →
      Finds r child (visit.run s child.type) (step s child))
    {e : Entered} {outer : List Entered} (inside : r.inside = e :: outer) {c : Cursor}
    (ahead : r.ahead? = some c) (s : σ) :
    match (children e.container c).fold step s with
    | .ok t => ∃ position, along visit s r = .ok t { r with position }
    | .error halt => along visit s r = .error halt.error (r.halt halt) := by
  -- on the children ahead; the reader is another one behind each of them
  fun_induction children e.container c generalizing r s with
  | case1 c c' walk =>
    refine ⟨.exhausted c', ?_⟩
    rw [alongStep, nextWithin inside ahead, walk]
  | case2 c e' c' walk =>
    change along visit s r = .error e' (r.halt (.before e' c'))
    rw [alongStep, nextWithin inside ahead, walk]
    simp only [Reader.halt, Halt.before, List.nil_append]
  | case3 c child walk ih =>
    have found := finds (r := { r with position := .on child none }) s rfl
    rw [alongStep, nextWithin inside ahead, walk]
    dsimp only [Children.fold]
    cases first : step s child with
    | error halt =>
      rw [first] at found
      have failed : visit.run s child.type _ = .error halt.error _ := found
      simp only [failed]
      rfl
    | ok t =>
      rw [first] at found
      obtain ⟨position, ok, behind⟩ := found
      have later := ih (r := { r with position }) inside behind t
      simp only [ok]
      exact later

theorem stepInEnters (on : r.position = .on h none) {kind : Container} (holds : h.container? = some kind) :
    stepIn r = .ok () { r with inside := ⟨kind, h.after⟩ :: r.inside, position := .before h.body } := by
  obtain ⟨something, holds⟩ := h.holdsIff.mp holds
  simp [stepIn, current?, on, holds, something]

theorem haltWithin (r : Reader) (position : Position) (kind : Container) (h : Header) (halt : Halt) :
    ({ r with inside := ⟨kind, h.after⟩ :: r.inside, position } : Reader).halt halt =
      r.halt (halt.within kind h) := by
  simp only [Reader.halt, Halt.within, List.append_assoc, List.cons_append, List.nil_append]

theorem enteringRuns {visit : Visit σ} {step : σ → Header → Except Halt σ}
    (finds : ∀ {r : Reader} {child : Header} s, r.position = .on child none →
      Finds r child (visit.run s child.type) (step s child))
    (on : r.position = .on h none) {kind : Container} (holds : h.container? = some kind) (s : σ) :
    entering visit s r = match h.fold kind s step with
      | .ok t => .ok t { r with position := .before h.after }
      | .error halt => .error halt.error (r.halt halt) := by
  have stepped := stepInEnters on holds
  have walked := alongFinds finds
    (r := { r with inside := ⟨kind, h.after⟩ :: r.inside, position := .before h.body }) rfl rfl s
  unfold entering Header.fold
  simp only [bind, EStateM.bind, stepped]
  dsimp only at walked
  cases walk : (children kind h.body).fold step s with
  | error halt =>
    rw [walk] at walked
    dsimp only at walked
    rw [walked, haltWithin]
    rfl
  | ok t =>
    rw [walk] at walked
    obtain ⟨position, ok⟩ := walked
    simp only [ok]
    rfl

theorem enteringFinds {visit : Visit σ} {step : σ → Header → Except Halt σ}
    (finds : ∀ {r : Reader} {child : Header} s, r.position = .on child none →
      Finds r child (visit.run s child.type) (step s child))
    (on : r.position = .on h none) {kind : Container} (holds : h.container? = some kind) (s : σ) :
    Finds r h (entering visit s) (h.fold kind s step) := by
  have runs := enteringRuns finds on holds s
  unfold Finds
  cases walk : h.fold kind s step with
  | error halt => rwa [walk] at runs
  | ok t =>
    rw [walk] at runs
    exact ⟨_, runs, rfl⟩

theorem decodedFirst (on : r.position = .on h none) (something : h.isNull = false) :
    r.decoded h.type = h.scalar.map some := by
  have asked : r.header (.type h.type) = .ok h := by
    simp [header, current?, on, Expectation.admits, something]
  rw [Reader.decoded, asked, on]

theorem haltOn (on : r.position = .on h none) (e : IonError) : r.halt (.on e h) = r := by
  rw [Reader.halt, Halt.on, ← on]
  rfl

theorem keepingBehind (on : r.position = .on h none) (type : ValueType) :
    ({ r with position := r.position.keeping type } : Reader).ahead? = some h.after := by
  simp only [ahead?, on, Position.keeping]

theorem stringFinds (on : r.position = .on h none) (type : h.type = .string) (something : h.isNull = false) :
    Finds r h string (h.decode Payload.text) := by
  have ran := gettingRuns .string Variant.string? .nullValue r
  have decoded := decodedFirst on something
  rw [type, Header.scalar, type] at decoded
  rw [decoded] at ran
  unfold Finds Header.decode
  cases said : Payload.text h.payload with
  | error e =>
    rw [said] at ran
    exact ran.trans (by rw [haltOn on]; rfl)
  | ok text =>
    rw [said] at ran
    exact ⟨_, ran, keepingBehind on .string⟩

theorem symbolTokenFinds (on : r.position = .on h none) (type : h.type = .symbol)
    (something : h.isNull = false) :
    Finds r h symbolToken ((h.decode Payload.symbol).map r.symbols.token) := by
  have asked : r.header (.type .symbol) = .ok h := by
    simp [header, current?, on, Expectation.admits, something, type]
  unfold Finds Header.decode
  cases said : Payload.symbol h.payload with
  | error e =>
    have ran : symbolToken r = .error e r := by
      simp only [symbolToken, symbol, asked, bind, Except.bind, said]
    exact ran.trans (by rw [haltOn on]; rfl)
  | ok sid =>
    have ran : symbolToken r = .ok (r.symbols.token sid) r := by
      simp only [symbolToken, symbol, asked, bind, Except.bind, said]
      rfl
    exact ⟨r.position, ran, by simp only [ahead?, on]⟩

theorem longFinds (on : r.position = .on h none) (type : h.type = .int) (something : h.isNull = false) :
    Finds r h (attempt long) (.ok (ImportEntry.number? h)) := by
  have leaves := gettingLeaves .int Variant.long? .numericOverflow r
  have decoded := decodedFirst on something
  rw [type, Header.scalar, type] at decoded
  have ran : attempt long r = .ok (ImportEntry.number? h) (left long r) := by
    unfold attempt left long ImportEntry.number?
    simp only [gettingRuns, decoded]
    cases Payload.int (highNibble h.descriptor == negativeCode) h.payload with
    | error e => rfl
    | ok number =>
      dsimp only [Except.map]
      cases Variant.long? (some number) <;> rfl
  exact ⟨_, ran.trans (congrArg _ leaves), keepingBehind on .int⟩

theorem onNull (on : r.position = .on h none) : r.currentIsNull = h.isNull := by
  simp only [currentIsNull, current?, on]

theorem onField (on : r.position = .on h none) {sid : Nat} (known : sid ≠ 0) :
    r.field? = some sid ↔ h.field.getD 0 = sid := by
  simp only [field?, current?, on, Option.bind_some]
  cases h.field with
  | none => simpa using known.symm
  | some n => simp

theorem importMemberFinds (entry : ImportEntry) (on : r.position = .on h none) :
    Finds r h (importMember.run entry h.type) (entry.member h) := by
  refine .got <| .either (by rw [onNull on]) (fun _ => .pure on entry) fun something => ?_
  have something : h.isNull = false := by simpa using something
  have field (sid : Nat) (known : sid ≠ 0) (type : ValueType) :
      r.field? = some sid ∧ h.type = type ↔ h.field.getD 0 = sid ∧ h.type = type :=
    and_congr_left fun _ => onField on known
  refine .either (field Sid.name (by decide) .string) (fun is => ?_) fun _ =>
    .either (field Sid.version (by decide) .int) (fun is => ?_) fun _ =>
      .either (field Sid.maxId (by decide) .int) (fun is => ?_) fun _ => .pure on entry
  · exact (stringFinds on is.2 something).map fun name => { entry with name := some name }
  · exact (longFinds on is.2 something).map fun version => { entry with version }
  · exact (longFinds on is.2 something).map fun maxId => { entry with maxId }

theorem importEntriesFinds (entries : List ImportEntry) (on : r.position = .on h none) :
    Finds r h (importEntries.run entries h.type) (ImportEntry.collect entries h) := by
  refine .got <| .either (by rw [onNull on]) (fun is => ?_) fun _ => .pure on entries
  have holds : h.container? = some .struct := h.holdsIff.mpr ⟨is.2, by rw [is.1]; rfl⟩
  exact (enteringFinds importMemberFinds on holds ⟨none, none, none⟩).map fun entry => entries ++ [entry]

theorem localSymbolsFinds (symbols : List (Option String)) (on : r.position = .on h none) :
    Finds r h (localSymbols.run symbols h.type) (TableEntry.symbol symbols h) := by
  refine .got <| .either (by rw [onNull on]) (fun is => ?_) fun _ => .pure on _
  exact (stringFinds on is.1 is.2).map fun text => symbols ++ [some text]

theorem tableMemberFinds (entry : TableEntry) (on : r.position = .on h none) :
    Finds r h (tableMember.run entry h.type) (entry.member h) := by
  refine .got <| .either (by rw [onNull on]) (fun _ => .pure on entry) fun something => ?_
  have something : h.isNull = false := by simpa using something
  have field (sid : Nat) (known : sid ≠ 0) (type : ValueType) :
      r.field? = some sid ∧ h.type = type ↔ h.field.getD 0 = sid ∧ h.type = type :=
    and_congr_left fun _ => onField on known
  have list (type : h.type = .list) : h.container? = some .list := h.holdsIff.mpr ⟨something, by rw [type]; rfl⟩
  refine .either (field Sid.imports (by decide) .symbol) (fun is => ?_) fun _ =>
    .either (field Sid.imports (by decide) .list) (fun is => ?_) fun _ =>
      .either (field Sid.symbols (by decide) .list) (fun is => ?_) fun _ => .pure on entry
  · have finds := (symbolTokenFinds on is.2 something).map fun token =>
      { entry with append := token.sid == some Sid.symbolTable }
    cases said : h.decode Payload.symbol <;> rw [said] at finds <;> exact finds
  · exact (enteringFinds importEntriesFinds on (list is.2) []).map fun imports => { entry with imports }
  · exact (enteringFinds localSymbolsFinds on (list is.2) []).map fun symbols => { entry with symbols }

theorem extendRuns (imports : Option Imports) (added : List (Option String)) (r : Reader) :
    extend imports added r =
      let base := (imports.map SymbolTable.ofImports).getD r.symbols
      if base.maxId + added.length ≤ Sid.last then
        .ok () { r with symbols := { base with locals := base.locals ++ added } }
      else .error (.badSymbolTable (.localRange added.length base.maxId)) r := by
  have base : (imports.map Imports.maxId).getD r.symbols.maxId =
      ((imports.map SymbolTable.ofImports).getD r.symbols).maxId := by
    cases imports <;> rfl
  change (if (imports.map Imports.maxId).getD r.symbols.maxId + added.length ≤ Sid.last then _ else _ :
    Call Unit) r = if ((imports.map SymbolTable.ofImports).getD r.symbols).maxId + added.length ≤ Sid.last then _
      else _
  rw [base]
  by_cases fits : ((imports.map SymbolTable.ofImports).getD r.symbols).maxId + added.length ≤ Sid.last
  · rw [if_pos fits, if_pos fits]
    cases imports with
    | none =>
      change putSymbols (added.foldl _ r.symbols) { r with symbols := .system } = _
      rw [SymbolTable.pushedAll]
      rfl
    | some imports =>
      change putSymbols (added.foldl _ (.ofImports imports)) r = _
      rw [SymbolTable.pushedAll]
      rfl
  · rw [if_neg fits, if_neg fits]
    rfl

theorem installRuns (entry : TableEntry) (r : Reader) :
    install entry r = match entry.install r.catalog r.symbols with
      | .ok symbols => .ok () { r with symbols }
      | .error fault => .error (.badSymbolTable fault) r := by
  unfold install TableEntry.install TableEntry.base
  cases append : entry.append with
  | true =>
    refine (extendRuns none entry.symbols r).trans ?_
    simp only [Option.map_none, Option.getD_none, if_true, bind, Except.bind]
    split <;> rfl
  | false =>
    simp only [Bool.false_eq_true, if_false, bind, EStateM.bind, Functor.map, EStateM.map, resolve]
    cases entry.imports.foldlM (ImportEntry.addTo r.catalog) .system with
    | error fault => rfl
    | ok imports =>
      refine (extendRuns (some imports) entry.symbols r).trans ?_
      simp only [Option.map_some, Option.getD_some, Except.map, Except.bind]
      split <;> rfl

theorem loadTableRuns (on : r.position = .on h none) (table : h.isTable = true) :
    loadTable r = match r.symbols.load r.catalog h with
      | .ok symbols => .ok () { r with symbols, position := .before h.after }
      | .error halt => .error halt.error (r.halt halt) := by
  have is : (h.type = .struct ∧ h.isNull = false) ∧ h.annotations.head? = some Sid.symbolTable := by
    simpa [Header.isTable] using table
  have holds : h.container? = some .struct := h.holdsIff.mpr ⟨is.1.2, by rw [is.1.1]; rfl⟩
  have entered := enteringRuns tableMemberFinds on holds ⟨false, [], []⟩
  unfold loadTable SymbolTable.load TableEntry.read
  simp only [bind, EStateM.bind, entered]
  cases h.fold .struct ⟨false, [], []⟩ TableEntry.member with
  | error halt => rfl
  | ok entry =>
    simp only [installRuns, Except.bind]
    cases entry.install r.catalog r.symbols <;> rfl

theorem nextLoads (top : r.inside = []) {c c' : Cursor} (ahead : r.ahead? = some c)
    (scan : Scan.topItem c = .ok (.value h) c') (table : h.isTable = true) :
    next r = (do
      loadTable
      next : Call (Option ValueType)) { r with position := .on h none } := by
  obtain ⟨catalog, symbols, inside, position⟩ := r
  cases top
  have ran := loadTableRuns (r := ⟨catalog, symbols, [], .on h none⟩) rfl table
  have walk := nextTopScanned scan catalog symbols
  dsimp only at ran walk
  rw [if_pos table] at walk
  simp only [nextAhead, ahead, advance, walk, bind, EStateM.bind, ran]
  cases symbols.load catalog h with
  | error halt => rfl
  | ok symbols => rfl

theorem loadFailed (on : r.position = .on h none) (table : h.isTable = true) {e : IonError} {s : Reader}
    (failed : loadTable r = .error e s) : s.symbols = r.symbols ∧ s.catalog = r.catalog := by
  rw [loadTableRuns on table] at failed
  cases loaded : r.symbols.load r.catalog h with
  | ok symbols => simp [loaded] at failed
  | error halt =>
    rw [loaded] at failed
    cases failed
    exact ⟨rfl, rfl⟩

theorem loadOk (on : r.position = .on h none) (table : h.isTable = true) {s : Reader}
    (ok : loadTable r = .ok () s) :
    ∃ entry, TableEntry.read h = .ok entry ∧ entry.install r.catalog r.symbols = .ok s.symbols ∧
      s = { r with symbols := s.symbols, position := .before h.after } := by
  rw [loadTableRuns on table] at ok
  cases loaded : r.symbols.load r.catalog h with
  | error halt => simp [loaded] at ok
  | ok symbols =>
    rw [loaded] at ok
    cases ok
    obtain ⟨entry, read, installed⟩ := exceptOk loaded
    exact ⟨entry, read, mapErrorOk.mp installed, rfl⟩

end Reader

theorem TableEntry.installed {catalog : Catalog} {symbols new : SymbolTable} {entry : TableEntry}
    (ok : entry.install catalog symbols = .ok new) :
    if entry.append then new = { symbols with locals := symbols.locals ++ entry.symbols }
    else entry.imports.foldlM (ImportEntry.addTo catalog) .system = .ok new.imports ∧
      new.locals = entry.symbols := by
  obtain ⟨base, based, ok⟩ := exceptOk ok
  split at ok
  · cases ok
    unfold TableEntry.base at based
    split at based
    · rename_i append
      cases based
      rw [if_pos append]
    · rename_i fresh
      rw [if_neg fresh]
      cases resolved : entry.imports.foldlM (ImportEntry.addTo catalog) .system with
      | error fault => simp [resolved, Except.map] at based
      | ok imports =>
        rw [resolved] at based
        cases based
        exact ⟨rfl, rfl⟩
  · contradiction

theorem SymbolTable.loadFresh {catalog : Catalog} {h : Header} {entry : TableEntry}
    (read : TableEntry.read h = .ok entry) (fresh : entry.append = false) (old symbols : SymbolTable) :
    old.load catalog h = symbols.load catalog h := by
  have base : entry.base catalog old = entry.base catalog symbols := by simp [TableEntry.base, fresh]
  simp only [load, read, TableEntry.install, base, bind, Except.bind]

open Reader in
/-- Loading a symbol table fails with the table in force as it was, or ends behind the struct. Then the new
table has the old imports and the old locals in front if the last marker asks for it; otherwise it is what the
struct says, whatever table was in force. A step loads each table that it comes to in this way. -/
theorem tablesLoadWhole {r : Reader} {h : Header} (top : r.inside = []) (on : r.position = .on h none)
    (table : h.isTable = true) :
    (∀ e s, loadTable r = .error e s → s.symbols = r.symbols ∧ s.catalog = r.catalog) ∧
      (∀ s, loadTable r = .ok () s →
        s = { r with symbols := s.symbols, position := .before h.after } ∧
          ∃ entry, TableEntry.read h = .ok entry ∧
            if h.appends then
              r.symbols.Extends s.symbols ∧ s.symbols.locals = r.symbols.locals ++ entry.symbols
            else
              entry.imports.foldlM (ImportEntry.addTo r.catalog) .system = .ok s.symbols.imports ∧
                s.symbols.locals = entry.symbols ∧ ∀ old, loadTable { r with symbols := old } = .ok () s) ∧
      ∀ before c c', before.ahead? = some c → Scan.topItem c = .ok (.value h) c' →
        r = { before with position := .on h none } →
          next before = (do
            loadTable
            next : Call (Option ValueType)) r := by
  refine ⟨fun e s => loadFailed on table, fun s ok => ?_, ?_⟩
  · obtain ⟨entry, read, installs, same⟩ := loadOk on table ok
    refine ⟨same, entry, read, ?_⟩
    have installed := TableEntry.installed installs
    rw [TableEntry.readAppend read] at installed
    by_cases appends : h.appends = true
    · rw [if_pos appends] at installed ⊢
      rw [installed]
      exact ⟨⟨rfl, List.prefix_append ..⟩, rfl⟩
    · rw [if_neg appends] at installed ⊢
      refine ⟨installed.1, installed.2, fun old => ?_⟩
      have fresh : entry.append = false := (TableEntry.readAppend read).trans (by simpa using appends)
      have loads := loadTableRuns (r := { r with symbols := old }) on table
      rw [SymbolTable.loadFresh read fresh old r.symbols] at loads
      rw [loadTableRuns on table] at ok
      rw [loads]
      cases loaded : r.symbols.load r.catalog h with
      | error halt => simp [loaded] at ok
      | ok symbols => rwa [loaded] at ok
  · rintro before c c' ahead scan rfl
    exact nextLoads top ahead scan table

open Reader in
theorem brokenAppendLoadsNothing :
    let old : SymbolTable := ⟨.system, [some "x"]⟩
    let data (last : UInt8) : Bytes :=
      [0xEC, 0x81, 0x83, 0xD9, 0x86, 0x71, 3, 0x87, 0xB4, 0x81, 0x61, 0x81, last]
    let h (last : UInt8) : Header := ⟨0xD9, .struct, none, [3], ⟨4, 13, (data last).drop 4⟩, 9⟩
    let r (last : UInt8) : Reader := ⟨.empty, old, [], .on (h last) none⟩
    (∀ last, (r last).inside = [] ∧ (r last).position = .on (h last) none ∧ (h last).isTable = true) ∧
      Reader.reply ⟨.empty, old, [], .before (.ofBytes (data 0xFF))⟩ (.call .next) =
        .failed (.input .invalidText) ∧
      (∃ e s, loadTable (r 0xFF) = .error e s ∧ s.depth = 2 ∧ s.symbols = old) ∧
      ∃ s, loadTable (r 0x62) = .ok () s ∧ old.Extends s.symbols ∧
        s.symbols.locals = [some "x", some "a", some "b"] := by
  intro old data h r
  have table (last : UInt8) : (h last).isTable = true := by
    simp [h, Header.isTable, Header.isNull, lowNibble, nullNibble, Sid.symbolTable]
  refine ⟨fun last => ⟨rfl, rfl, table last⟩, by decide +kernel, ?_, ?_⟩
  · obtain ⟨kept, -, -⟩ := tablesLoadWhole (r := r 0xFF) rfl rfl (table 0xFF)
    have deep : ((loadTable (r 0xFF)).casesOn (fun _ _ => 0) fun _ s => s.depth : Nat) = 2 := by decide +kernel
    cases ran : loadTable (r 0xFF) with
    | ok _ s => simp [ran] at deep
    | error e s =>
      rw [ran] at deep
      exact ⟨e, s, rfl, deep, (kept e s ran).1⟩
  · obtain ⟨-, loads, -⟩ := tablesLoadWhole (r := r 0x62) rfl rfl (table 0x62)
    have loaded : ((loadTable (r 0x62)).casesOn (fun _ s => s.symbols.locals) fun _ _ => [] :
        List (Option String)) = [some "x", some "a", some "b"] := by decide +kernel
    cases ran : loadTable (r 0x62) with
    | error e s => simp [ran] at loaded
    | ok _ s =>
      rw [ran] at loaded
      obtain ⟨-, entry, -, grown⟩ := loads s ran
      rw [if_pos (by decide +kernel)] at grown
      exact ⟨s, rfl, grown.1, loaded⟩

end Ion
