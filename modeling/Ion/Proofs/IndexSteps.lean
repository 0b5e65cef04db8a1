import Ion.Proofs.IndexReaders

/-! The steps of a reader by index. The search for the next value goes along with that of a reader of
cursors, also through the symbol tables in between, so that whatever is called no read leaves the data
and what is kept apart agrees. -/
namespace Ion

namespace IndexReader

open Reader (Sited left Timed)
open Dialogue

variable {data : Bytes} {r s : Reader}

def facing (r : Reader) (c : Cursor) : Reader := { r with position := .before c }

inductive Reads (data : Bytes) (r : Reader) (related : β → α → Prop) :
    EStateM.Result (Fault IonError) IndexReader β → EStateM.Result IonError Cursor α → Prop
  | ok {b a} (c : Cursor) (results : related b a) : Reads data r related (.ok b (of data (facing r c))) (.ok a c)
  | failed (e : IonError) (c : Cursor) :
      Reads data r related (.error (.failed e) (of data (facing r c))) (.error e c)

inductive Found (data : Bytes) (r : Reader) (cause : IonError → IonError) :
    EStateM.Result (Fault IonError) IndexReader (Option ValueHeader) →
      EStateM.Result IonError Cursor TopItem → Prop
  | marker (c : Cursor) :
      Found data r cause (.ok none (of data (facing { r with symbols := .system } c))) (.ok .marker c)
  | padding (c : Cursor) : Found data r cause (.ok none (of data (facing r c))) (.ok .padding c)
  | value (h : Header) (c : Cursor) :
      Found data r cause (.ok (some (.of h)) (of data (facing r c))) (.ok (.value h) c)
  | failed (e : IonError) (c : Cursor) :
      Found data r cause (.error (.failed (cause e)) (of data (facing r c))) (.error e c)

variable {c : Cursor}

theorem scanReads {related : β → α → Prop} {act : Window.Scan β} {plain : Scan α}
    (mirrors : Window.Mirrors data related act plain) (inside : c.Inside data) :
    Reads data r related (scan act (of data (facing r c))) (plain c) := by
  have ends := mirrors c inside
  have window : (of data (facing r c)).input = Window.along data c := rfl
  rw [scan, window]
  generalize act (Window.along data c) = reached at ends
  generalize plain c = found at ends
  cases ends with
  | ok results onward => exact .ok _ results
  | failed e c' => exact .failed e c'

theorem Reads.bind {related : β → α → Prop} {act : Call β} {plain : Scan α}
    {next : β → Call (Option ValueHeader)} {plainNext : α → Scan TopItem} {s : IndexReader}
    (first : Reads data r related (act s) (plain c))
    (more : ∀ b a c', related b a → plain c = .ok a c' →
      Found data r id (next b (of data (facing r c'))) (plainNext a c')) :
    Found data r id ((act >>= next) s) ((plain >>= plainNext) c) := by
  simp only [Bind.bind, EStateM.bind]
  generalize act s = reached at first
  generalize plain c = found at first more
  cases first with
  | ok c' results => exact more _ _ c' results rfl
  | failed e c' => exact .failed e c'

theorem itemFound (inside : c.Inside data) (kind : Option Container) :
    Found data r id (scan (Window.item (kind.map Container.type)) (of data (facing r c)))
      ((do return .ofItem (← Scan.item kind) : Scan TopItem) c) := by
  have reads := scanReads (r := r) (Window.itemMirrors kind) inside
  simp only [Bind.bind, EStateM.bind]
  generalize scan (Window.item (kind.map Container.type)) (of data (facing r c)) = reached at reads
  generalize Scan.item kind c = found at reads
  cases reads with
  | failed e c' => exact .failed e c'
  | @ok b a c' results =>
    rw [results]
    cases a with
    | none => exact .padding c'
    | some h => exact .value h c'

theorem markerFound (inside : c.Inside data) :
    Found data r id (readMarker (of data (facing r c)))
      ((do
        let marker ← Scan.lift (Cursor.bytes 4)
        Scan.require (marker = versionMarker) .badVersionMarker
        return .marker : Scan TopItem) c) := by
  refine (scanReads (Window.liftMirrors (Window.bytesMirrors 4)) inside).bind fun raw _ c' same _ => ?_
  rw [← same]
  by_cases marker : raw = versionMarker
  · rw [if_pos marker, bindRuns (Scan.requireMet marker _ c')]
    exact .marker c'
  · rw [if_neg marker]
    have refused : Scan.require (raw = versionMarker) .badVersionMarker c' = .error .badVersionMarker c' := by
      rw [Scan.require, if_neg marker]
      rfl
    rw [bindHalts refused]
    exact .failed _ c'

theorem scopeOf (data : Bytes) (r : Reader) : (of data r).scope = r.scope.map Container.type := by
  obtain ⟨catalog, symbols, inside, position⟩ := r
  cases inside <;> rfl

theorem headerFound (inside : c.Inside data) :
    Found data r id (readHeader (of data (facing r c))) (Scan.anyItem r.scope c) := by
  have scope : (of data (facing r c)).scope = r.scope.map Container.type := scopeOf data (facing r c)
  unfold readHeader
  rw [scope]
  cases r.scope with
  | some kind => exact itemFound inside (some kind)
  | none =>
    refine (scanReads (Window.liftMirrors Window.peekMirrors) inside).bind fun head _ c' same peeked => ?_
    obtain ⟨rfl, -⟩ := Scan.peekStays peeked
    rw [← same]
    split
    · exact markerFound inside
    · refine Eq.subst (motive := Found data r id _) ?_ (itemFound inside none)
      exact congrFun (bind_congr fun found => by cases found <;> rfl) c

theorem nextFound (inside : c.Inside data) :
    Found data r (fun e => if r.inside = [] then e else childError c.pos e)
      (readItem (of data (facing r c))) (Scan.anyItem r.scope c) := by
  have found := headerFound (r := r) inside
  have stack : (of data (facing r c)).stack = r.inside.map ContainerFrame.of := rfl
  have place : (of data (facing r c)).input.pos = c.pos := rfl
  unfold readItem
  rw [stack, place]
  cases entered : r.inside with
  | nil =>
    simp only [List.map_nil, if_true]
    exact found
  | cons e outer =>
    simp only [List.map_cons, List.cons_ne_nil, if_false]
    unfold EStateM.adaptExcept
    generalize readHeader (of data (facing r c)) = reached at found
    generalize Scan.anyItem r.scope c = item at found
    cases found with
    | marker c' => exact .marker c'
    | padding c' => exact .padding c'
    | value h c' => exact .value h c'
    | failed cause c' => exact .failed cause c'

theorem seekEnded (rounds : Nat) (s : IndexReader) (ended : s.input.stop ≤ s.input.pos) :
    seek (rounds + 1) s = .ok none { s with state := .exhausted } := by
  change (if s.input.stop ≤ s.input.pos then _ else _ : Call (Option ValueType)) s = _
  exact congrFun (if_pos ended) s

theorem seekFinds (rounds : Nat) (s : IndexReader) (more : ¬s.input.stop ≤ s.input.pos) :
    seek (rounds + 1) s = (do
      match ← readItem with
      | none => seek rounds
      | some h =>
        modify fun s => { s with current := some h, state := .onValue }
        if s.stack = [] ∧ h.isTable then
          loadTable (nextBy (seek rounds)) rounds
          seek rounds
        else return some h.type : Call (Option ValueType)) s := by
  change (if s.input.stop ≤ s.input.pos then _ else _ : Call (Option ValueType)) s = _
  exact congrFun (if_neg more) s

theorem timedOk {first : Timed α} {next : α → Timed β} {b : β} (ok : (first >>= next) r = some (.ok b s)) :
    ∃ a middle, first r = some (.ok a middle) ∧ next a middle = some (.ok b s) := by
  simp only [Bind.bind] at ok
  split at ok
  · exact ⟨_, _, ‹_›, ok⟩
  · simp at ok
  · contradiction

theorem loadedFacing {timed : Timed (Option ValueType)} {rounds : Nat}
    (loaded : Reader.loadTableIn timed rounds r = some (.ok () s)) : ∃ c, s = facing s c := by
  obtain ⟨entry, left, entered, installed⟩ := timedOk loaded
  obtain ⟨_, inner, -, entered⟩ := timedOk entered
  obtain ⟨_, last, -, entered⟩ := timedOk entered
  obtain ⟨_, outer, stepped, done⟩ := timedOk entered
  cases done
  have stepped : Reader.stepOut last = .ok () left := Option.some.inj stepped
  have installed : Reader.install entry left = .ok () s := Option.some.inj installed
  rw [Reader.installRuns] at installed
  split at installed <;> cases installed
  unfold Reader.stepOut at stepped
  split at stepped <;> cases stepped
  exact ⟨_, rfl⟩

theorem roundEnded (rounds : Nat) (r : Reader) (ended : c.atEnd = true) :
    Reader.nextIn (rounds + 1) (facing r c) = some (.ok none { facing r c with position := .exhausted c }) :=
  if_pos ended

theorem roundFinds (rounds : Nat) (r : Reader) (more : ¬c.atEnd = true) :
    Reader.nextIn (rounds + 1) (facing r c) = match Scan.anyItem r.scope c with
      | .error e c' => some (.error (if r.inside = [] then e else childError c.pos e) (facing r c'))
      | .ok .marker c' => Reader.nextIn rounds (facing { r with symbols := .system } c')
      | .ok .padding c' => Reader.nextIn rounds (facing r c')
      | .ok (.value h) _ =>
        (if r.inside = [] ∧ h.isTable = true then do
            Reader.loadTableIn (Reader.nextIn rounds) rounds
            Reader.nextIn rounds
          else return some h.type : Timed (Option ValueType)) { r with position := .on h none } := by
  refine (if_neg more).trans ?_
  change (match Scan.anyItem r.scope c with
    | .error _ _ => _ | .ok .marker _ => _ | .ok .padding _ => _ | .ok (.value _) _ => _) = _
  cases Scan.anyItem r.scope c with
  | error e c' => rfl
  | ok found c' =>
    cases found with
    | marker | padding => rfl
    | value h =>
      by_cases table : r.inside = [] ∧ h.isTable = true
      · exact (if_pos table).trans (congrFun (if_pos table) _).symm
      · refine (if_neg table).trans ?_
        dsimp only
        rw [if_neg table]
        rfl

theorem hiddenFacing (scanned : Scanned data r.scope c) (enclosed : Enclosed data r.inside c.stop) {c' : Cursor}
    {found : TopItem} (scan : Scan.anyItem r.scope c = .ok found c') (hidden : ∀ h, found ≠ .value h) :
    (facing r c').Sited data :=
  .before (.hidden scanned scan hidden) (by rwa [(scanned.stays.ok scan).stop])

theorem foundOn (scanned : Scanned data r.scope c) (enclosed : Enclosed data r.inside c.stop) {c' : Cursor}
    {h : Header} (scan : Scan.anyItem r.scope c = .ok (.value h) c') :
    Sited data { r with position := .on h none } ∧
      { of data (facing r c') with current := some (.of h), state := .onValue } =
        of data { r with position := .on h none } := by
  obtain ⟨rfl, -⟩ := headerInside scanned.inside scan
  have found : h.FoundIn data r.scope := ⟨c, _, scanned, scan⟩
  exact ⟨.fresh found (by rwa [(scanned.stays.ok scan).stop]), rfl⟩

section

variable {rounds : Nat}
  (seeks : ∀ {r : Reader} {c : Cursor}, (facing r c).Sited data →
    Follows data (seek rounds) (Reader.nextIn rounds) (facing r c))
include seeks

theorem nextByFollows (sited : r.Sited data) : Follows data (nextBy (seek rounds)) (Reader.nextIn rounds) r := by
  obtain ⟨catalog, symbols, inside, position⟩ := r
  cases position with
  | before c => exact seeks (r := ⟨catalog, symbols, inside, .before c⟩) sited
  | exhausted c =>
    intro result ran
    obtain _ | rounds := rounds
    · contradiction
    · cases ran
      exact .ok none sited
  | on h decoded =>
    cases sited with
    | on found enclosed cached =>
      intro result ran
      have behind : (facing ⟨catalog, symbols, inside, .on h decoded⟩ h.after).Sited data :=
        .before found.behind enclosed
      refine seeks behind result ?_
      obtain _ | rounds := rounds
      · contradiction
      · exact ran

theorem valueFollows (sited : r.Sited data) {condition condition' : Prop} [Decidable condition]
    [Decidable condition'] (same : condition ↔ condition') (type : ValueType) :
    Follows data
      (if condition then do
        loadTable (nextBy (seek rounds)) rounds
        seek rounds
      else return some type)
      (if condition' then do
        Reader.loadTableIn (Reader.nextIn rounds) rounds
        Reader.nextIn rounds
      else return some type) r := by
  refine .either same ?_ (.pure (some type) sited)
  refine (loadTableFollows (nextByFollows seeks) rounds sited).leads fun _ s loaded sited => ?_
  obtain ⟨c, left⟩ := loadedFacing loaded
  rw [left] at sited ⊢
  exact seeks sited

theorem roundFollows (scanned : Scanned data r.scope c) (enclosed : Enclosed data r.inside c.stop)
    (more : ¬c.atEnd = true) : Follows data (seek (rounds + 1)) (Reader.nextIn (rounds + 1)) (facing r c) := by
  intro result ran
  have found := nextFound (r := r) scanned.inside
  rw [roundFinds rounds r more] at ran
  rw [seekFinds rounds _ fun last => more (decide_eq_true last)]
  simp only [Bind.bind, EStateM.bind]
  cases scan : Scan.anyItem r.scope c with
  | error e c' =>
    rw [scan] at found ran
    generalize readItem (of data (facing r c)) = reached at found ⊢
    cases found
    cases ran
    have enclosed' : Enclosed data r.inside c'.stop := by
      rwa [(scanned.stays.error scan).stop]
    exact .failed _ (r := facing r c') (.before (.failed scanned scan) enclosed')
  | ok item c' =>
    rw [scan] at found ran
    generalize readItem (of data (facing r c)) = reached at found ⊢
    cases found with
    | marker c' =>
      have behind := hiddenFacing scanned enclosed scan TopItem.markerHidden
      exact seeks (r := { r with symbols := .system }) behind result ran
    | padding c' => exact seeks (hiddenFacing scanned enclosed scan TopItem.paddingHidden) result ran
    | value h c' =>
      obtain ⟨sited, storage⟩ := foundOn scanned enclosed scan
      have table : (of data (facing r c)).stack = [] ∧ (ValueHeader.of h).isTable = true ↔
          r.inside = [] ∧ h.isTable = true :=
        and_congr_left' List.map_eq_nil_iff
      have follows := valueFollows seeks sited table h.type result ran
      rw [← storage] at follows
      exact follows

end

theorem seekFollows (rounds : Nat) (sited : (facing r c).Sited data) :
    Follows data (seek rounds) (Reader.nextIn rounds) (facing r c) := by
  induction rounds generalizing r c with
  | zero =>
    intro result ran
    rw [Reader.nextIn] at ran
    contradiction
  | succ rounds ih =>
    cases sited with
    | before scanned enclosed =>
      by_cases ended : c.atEnd = true
      · have last : c.stop ≤ c.pos := of_decide_eq_true ended
        intro result ran
        rw [roundEnded rounds r ended] at ran
        cases ran
        rw [seekEnded rounds _ last]
        exact .ok none (r := { facing r c with position := .exhausted c }) (.exhausted scanned enclosed)
      · exact roundFollows ih scanned enclosed ended

theorem nextAnswers (sited : r.Sited data) : Answers data next Reader.next r := by
  have enough : r.unread < data.length + 1 := by
    cases ahead : r.ahead? with
    | none => simp [Reader.unread, ahead]
    | some c =>
      have inside := (sited.ahead ahead).inside
      have sound : _ = _ := inside.sound
      have bound := (Cursor.insideIff.mp inside).1.2
      rw [Reader.unreadAhead ahead]
      omega
  exact nextByFollows (seekFollows _) sited _ (Reader.nextSuffices enough)

open Reader (Query Answer)

def run (answer : α → Answer) (call : Call α) (s : IndexReader) : Option Answer × IndexReader :=
  match call s with
  | .ok a s => (some (answer a), s)
  | .error (.failed e) s => (some (.failed e), s)
  | .error _ s => (none, s)

def said (answer : α → Answer) : Except (Fault IonError) α → Option Answer
  | .ok a => some (answer a)
  | .error (.failed e) => some (.failed e)
  | .error _ => none

def ask (s : IndexReader) : Query → Option Answer × IndexReader
  | .call .next => run .type next s
  | .call .stepIn => run (fun _ => .done) stepIn s
  | .call .stepOut => run (fun _ => .done) stepOut s
  | .call .bool => run (fun b => .scalar (.bool b)) bool s
  | .call .int => run (fun n => .scalar (.int n)) int s
  | .call .long => run (fun n => .scalar (.long n)) long s
  | .call .integer => run (fun n => .scalar (.big n)) integer s
  | .call .double => run (fun f => .scalar (.double f)) double s
  | .call .decimal => run (fun d => .scalar (.decimal d)) decimal s
  | .call .timestamp => run (fun t => .scalar (.timestamp t)) timestamp s
  | .call .string => run (fun t => .scalar (.string t)) string s
  | .call .integerSize => run .size integerSize s
  | .depth => (some (.depth s.depth), s)
  | .phase => (some (.phase s.state), s)
  | .type => (some (.type s.currentType?), s)
  | .isNull => (some (.isNull s.currentIsNull), s)
  | .fieldName => (some (.fieldName s.fieldName?), s)
  | .fieldToken => (some (.fieldToken s.fieldToken?), s)
  | .annotations => (some (.annotations s.annotations), s)
  | .symbol => (said .symbol s.symbol, s)
  | .lob => (said .lob s.lob, s)
  | .lobSize => (said .lobSize s.lobSize, s)

theorem ranSame {act : Call α} {call : Reader.Call α} (answers : Answers data act call r) (answer : α → Answer) :
    run answer act (of data r) = (some (Reader.answered answer call r), of data (left call r)) := by
  unfold Answers at answers
  unfold run Reader.answered left
  generalize act (of data r) = reached at answers
  generalize call r = plain at answers
  cases answers <;> rfl

theorem saidSame {plain : Except IonError α} {found : Except (Fault IonError) α}
    (same : found = plain.mapError .failed) (answer : α → Answer) :
    said answer found = some (.of answer plain) := by
  rw [same]
  cases plain <;> rfl

theorem looked (answer : α → Answer) {found plain : α} (same : found = plain) :
    (some (answer found), of data r) = (some (answer plain), of data r) := by
  rw [same]

theorem asked (sited : r.Sited data) (query : Query) :
    (of data r).ask query = (some (r.ask query).1, of data (r.ask query).2) := by
  cases query with
  | call request =>
    cases request with
    | next => exact ranSame (nextAnswers sited) _
    | stepIn => exact ranSame (stepInAnswers sited) _
    | stepOut => exact ranSame (stepOutAnswers sited) _
    | integerSize => exact ranSame (integerSizeAnswers sited) _
    | bool | int | long | integer | double | decimal | timestamp | string =>
      exact ranSame (gettingAnswers sited _ _ _) _
  | phase => rfl
  | depth => exact looked Answer.depth (depthOf data r)
  | type => exact looked Answer.type (typeOf data r)
  | isNull => exact looked Answer.isNull (nullOf data r)
  | fieldName => exact looked (fun sid => Answer.fieldName (sid.bind r.symbols.text?)) (fieldOf data r)
  | fieldToken => exact looked (fun sid => Answer.fieldToken (sid.map r.symbols.token)) (fieldOf data r)
  | annotations => exact looked Answer.annotations (annotationsOf data r)
  | symbol => exact congrArg (·, of data r) (saidSame (symbolOf sited) _)
  | lob => exact congrArg (·, of data r) (saidSame (lobOf sited) _)
  | lobSize => exact congrArg (·, of data r) (saidSame (lobSizeOf data r) _)

def Stores (data : Bytes) (r : Reader) (s : IndexReader) : Prop := s = of data r ∧ r.Sited data

theorem Stores.asked {s : IndexReader} (stores : Stores data r s) (query : Query) :
    (s.ask query).1 = some (r.ask query).1 ∧ Stores data (r.ask query).2 (s.ask query).2 := by
  obtain ⟨rfl, sited⟩ := stores
  rw [IndexReader.asked sited query]
  exact ⟨rfl, rfl, Reader.askSited sited query⟩

def Nested (length : Nat) : Nat → List ContainerFrame → Prop
  | stop, [] => stop ≤ length
  | stop, frame :: outer =>
    stop ≤ frame.resume ∧ frame.resume ≤ frame.parentStop ∧ Nested length frame.parentStop outer

/-- The window and the containers entered are inside the data, there is a header just when the mark says so, its
payload is inside the window, and the slot holds nothing but what that payload says. -/
structure Safe (data : Bytes) (s : IndexReader) : Prop where
  bytes : s.input.data = data
  window : s.input.pos ≤ s.input.stop ∧ s.input.stop ≤ data.length
  frames : Nested data.length s.input.stop s.stack
  state : s.state = .onValue ↔ s.current.isSome = true
  header h (current : s.current = some h) : h.start ≤ h.stop ∧ h.stop ≤ s.input.stop
  cached scalar (kept : s.slot = some scalar) : ∃ h raw, s.current = some h ∧
    data.slice? h.start h.stop = some raw ∧ h.decode h.type raw = .ok scalar

theorem nested {inside : List Entered} {stop : Nat} (enclosed : Enclosed data inside stop) :
    Nested data.length stop (inside.map ContainerFrame.of) := by
  induction enclosed with
  | top => exact Nat.le_refl _
  | inner ends scanned around ih => exact ⟨ends, (Cursor.insideIff.mp scanned.inside).1.1, ih⟩

theorem safe (sited : r.Sited data) : (of data r).Safe data := by
  have bounds := (Cursor.insideIff.mp (Stands.cursor sited)).1
  have frames := nested (Stands.enclosed sited)
  obtain ⟨catalog, symbols, inside, position⟩ := r
  cases sited with
  | before scanned enclosed => exact ⟨rfl, bounds, frames, ⟨nofun, nofun⟩, nofun, nofun⟩
  | exhausted scanned enclosed => exact ⟨rfl, bounds, frames, ⟨nofun, nofun⟩, nofun, nofun⟩
  | @on h decoded found enclosed cached =>
    refine ⟨rfl, bounds, frames, ⟨fun _ => rfl, fun _ => rfl⟩, ?_, ?_⟩
    · rintro h' ⟨⟩
      exact ⟨Nat.le_add_right _ _, found.room.2⟩
    · intro scalar kept
      have decodes := h.decodeSame
      rw [cached scalar kept] at decodes
      exact ⟨.of h, h.payload, rfl, found.payload, decodes⟩

end IndexReader

open Dialogue

/-- Whatever the data and the calls, no call takes a byte or a slice that the data does not have or runs out of
rounds: each has its answer, which is that of the reader of cursors, and leaves a reader that is safe. -/
theorem readerSafe (catalog : Catalog) (data : Bytes) (marked : versionMarker.isPrefixOf data = true) :
    ∃ r s, Reader.of catalog data = .ok r ∧ IndexReader.build catalog data = .ok s ∧
      ∀ queries : List Reader.Query,
        answers IndexReader.ask s queries = (answers Reader.ask r queries).map some ∧
          (after IndexReader.ask s queries).Safe data := by
  obtain ⟨r, opened, sited⟩ := Reader.opensSited catalog marked
  have start : r = ⟨catalog, .system, [], .before (.ofBytes data)⟩ :=
    (Except.ok.inj ((if_pos marked).symm.trans opened)).symm
  have stores : IndexReader.Stores data r (.of data r) := ⟨rfl, sited⟩
  refine ⟨r, .of data r, opened, ?_, fun queries => ?_⟩
  · rw [start]
    exact if_pos marked
  have free : Along Reader.ask (fun _ _ => True) r queries := alongAll (fun _ _ => trivial) r queries
  constructor
  · exact answerTogether (IndexReader.Stores data) some stores free fun stores _ => stores.asked _
  · obtain ⟨storage, sited⟩ :=
      stayRelated (IndexReader.Stores data) stores free fun stores _ => (stores.asked _).2
    rw [storage]
    exact IndexReader.safe sited

theorem readerSafeInTable :
    let data : Bytes := [0xE0, 0x01, 0x00, 0xEA, 0xE6, 0x81, 0x83, 0xD3, 0x87, 0xB1, 0x8E]
    let queries : List Reader.Query :=
      [.call .next, .call .string, .call .next, .call .stepOut, .lob, .call .stepIn, .call .next]
    versionMarker.isPrefixOf data = true ∧ ∃ s, IndexReader.build .empty data = .ok s ∧
      (answers IndexReader.ask s queries).all Option.isSome = true ∧
        (after IndexReader.ask s [.call .next]).stack = [⟨.list, 11, 11⟩, ⟨.struct, 11, 11⟩] ∧
          (after IndexReader.ask s [.call .next]).input = ⟨data, 11, 11⟩ ∧
            (after IndexReader.ask s queries).Safe data := by
  intro data queries
  have marked : versionMarker.isPrefixOf data = true := by decide
  obtain ⟨r, s, opened, built, safe⟩ := readerSafe .empty data marked
  have is : s = ⟨.ofBytes data, .empty, .system, [], .beforeValue, none, none⟩ := (Except.ok.inj built).symm
  refine ⟨marked, s, built, ?_, ?_, ?_, (safe queries).2⟩
  · rw [(safe queries).1]
    rfl
  · rw [is]
    decide +kernel
  · rw [is]
    decide +kernel

end Ion
