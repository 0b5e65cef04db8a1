import Ion.Proofs.Queries

/-! The same bytes at another place of the data. A walk through them goes the same way there; the places
where it stands, and those in its failures, move along. -/
namespace Ion

def Cursor.moved (k : Nat) (c : Cursor) : Cursor := ⟨c.pos + k, c.stop + k, c.rest⟩

def Header.moved (k : Nat) (h : Header) : Header := { h with start := h.start.moved k }

def TopItem.moved (k : Nat) : TopItem → TopItem
  | marker => marker
  | padding => padding
  | value h => value (h.moved k)

def IonError.moved (k : Nat) : IonError → IonError
  | lengthMismatch offset => lengthMismatch (offset + k)
  | e => e

def Entered.moved (k : Nat) (e : Entered) : Entered := { e with resume := e.resume.moved k }

def Position.moved (k : Nat) : Position → Position
  | before c => before (c.moved k)
  | on h decoded => on (h.moved k) decoded
  | exhausted c => exhausted (c.moved k)

def Halt.moved (k : Nat) (halt : Halt) : Halt :=
  ⟨halt.error.moved k, halt.inside.map (Entered.moved k), halt.position.moved k⟩

def Step.moved (k : Nat) : Step → Step
  | exhausted c => exhausted (c.moved k)
  | failed e c => failed (e.moved k) (c.moved k)
  | value h => value (h.moved k)

def TopStep.moved (k : Nat) : TopStep → TopStep
  | exhausted c => exhausted (c.moved k)
  | halted halt => halted (halt.moved k)
  | value h => value (h.moved k)

def Children.moved (k : Nat) : Children → Children
  | done c => done (c.moved k)
  | failed e c => failed (e.moved k) (c.moved k)
  | child h rest => child (h.moved k) (rest.moved k)

namespace Reader

def moved (k : Nat) (r : Reader) : Reader :=
  { r with inside := r.inside.map (Entered.moved k), position := r.position.moved k }

def Answer.moved (k : Nat) : Answer → Answer
  | failed e => failed (e.moved k)
  | answer => answer

end Reader

variable {k : Nat}

theorem Cursor.advanceMoved (c : Cursor) (n : Nat) : (c.moved k).advance n = (c.advance n).moved k := by
  simp only [advance, moved, Nat.add_right_comm]

theorem Cursor.roomMoved (c : Cursor) (n : Nat) :
    (c.moved k).pos + n ≤ (c.moved k).stop ↔ c.pos + n ≤ c.stop := by
  simp only [moved]
  omega

theorem Cursor.restMoved (c : Cursor) : (c.moved k).rest = c.rest := rfl

theorem Cursor.atEndMoved (c : Cursor) : (c.moved k).atEnd = c.atEnd := by
  simp only [atEnd, moved, Nat.add_le_add_iff_right]

theorem Header.bodyMoved (h : Header) : (h.moved k).body = h.body.moved k := by
  simp only [body, moved, Cursor.part, Cursor.moved, Nat.add_right_comm]

theorem Header.afterMoved (h : Header) : (h.moved k).after = h.after.moved k :=
  Cursor.advanceMoved h.start h.length

theorem Header.payloadMoved (h : Header) : (h.moved k).payload = h.payload := by
  rw [payload, bodyMoved]
  rfl

theorem Header.movedAlike (h : Header) : h.Alike (h.moved k) := ⟨rfl, rfl, rfl, rfl, rfl, h.payloadMoved⟩

theorem IonError.movedPlain {e : IonError} (plain : e.isStructural = false) : e.moved k = e := by
  cases e <;> first | rfl | contradiction

namespace Scan

def resultMoved (k : Nat) (f : α → β) :
    EStateM.Result IonError Cursor α → EStateM.Result IonError Cursor β
  | .ok a c => .ok (f a) (c.moved k)
  | .error e c => .error (e.moved k) (c.moved k)

def MovesAt (k : Nat) (f : α → β) (here : Scan α) (there : Scan β) (c : Cursor) : Prop :=
  there (c.moved k) = resultMoved k f (here c)

def Moves (k : Nat) (f : α → β) (here : Scan α) (there : Scan β) : Prop := ∀ c, MovesAt k f here there c

section

variable {f : α → β} {g : γ → δ} {first : Scan α} {first' : Scan β} {next : α → Scan γ}
  {next' : β → Scan δ}

theorem MovesAt.bind {c : Cursor} (one : MovesAt k f first first' c)
    (two : ∀ a c', first c = .ok a c' → MovesAt k g (next a) (next' (f a)) c') :
    MovesAt k g (first >>= next) (first' >>= next') c := by
  unfold MovesAt at *
  simp only [Bind.bind, EStateM.bind, one]
  cases found : first c with
  | ok a c' => exact two a c' found
  | error e c' => rfl

theorem Moves.bind (one : Moves k f first first') (two : ∀ a, Moves k g (next a) (next' (f a))) :
    Moves k g (first >>= next) (first' >>= next') :=
  fun c => (one c).bind fun a c' _ => two a c'

end

theorem doneMoves (f : α → β) (a : α) : Moves k f (pure a) (pure (f a)) := fun _ => rfl

theorem failedMoves (f : α → β) (e : IonError) : Moves k f (throw e) (throw (e.moved k)) := fun _ => rfl

theorem placeMoves : Moves k (Cursor.moved k) get get := fun _ => rfl

theorem requireMoves {condition condition' : Prop} [Decidable condition] [Decidable condition']
    (same : condition' ↔ condition) (e : IonError) :
    Moves k id (require condition e) (require condition' (e.moved k)) := by
  unfold require
  by_cases holds : condition
  · rw [if_pos holds, if_pos (same.mpr holds)]
    exact doneMoves id ()
  · rw [if_neg holds, if_neg (mt same.mp holds)]
    exact failedMoves id e

theorem withinMoves (scope : Option Container) (offset length : Nat) :
    Moves k id (within scope offset length) (within scope (offset + k) length) := by
  intro c
  unfold MovesAt within
  by_cases fits : c.pos + length ≤ c.stop
  · rw [if_pos fits, if_pos ((c.roomMoved length).mpr fits)]
    rfl
  · rw [if_neg fits, if_neg (mt (c.roomMoved length).mp fits)]
    cases scope <;> rfl

theorem peekMoves : Moves k id (lift Cursor.peek) (lift Cursor.peek) := by
  intro c
  simp only [MovesAt, lift, EStateM.adaptExcept, Cursor.peek, Cursor.roomMoved, Cursor.restMoved]
  by_cases fits : c.pos + 1 ≤ c.stop
  · rw [if_pos fits, if_pos fits]
    cases Cursor.first c.rest <;> rfl
  · rw [if_neg fits, if_neg fits]
    rfl

theorem takeMoves (n : Nat) (meaning : Bytes → Except ReadError α) :
    Moves k id (lift (Cursor.take n meaning)) (lift (Cursor.take n meaning)) := by
  intro c
  simp only [MovesAt, lift, EStateM.adaptExcept, Cursor.take, Cursor.roomMoved, Cursor.restMoved,
    Cursor.advanceMoved]
  by_cases fits : c.pos + n ≤ c.stop
  · rw [if_pos fits, if_pos fits]
    cases meaning (c.rest.take n) <;> rfl
  · rw [if_neg fits, if_neg fits]
    rfl

theorem varUIntMoves : Moves k id (lift Cursor.varUInt) (lift Cursor.varUInt) := by
  intro c
  simp only [MovesAt, lift, EStateM.adaptExcept, Cursor.varUInt, Cursor.number, Cursor.restMoved,
    Cursor.advanceMoved]
  cases VarUInt.decode c.rest <;> rfl

theorem sidMoves : Moves k id sid sid :=
  varUIntMoves.bind fun n => by
    unfold id
    split
    · exact doneMoves id n
    · exact failedMoves id .numericOverflow

theorem sidsUntilMoves (stop : Nat) : Moves k id (sidsUntil stop) (sidsUntil (stop + k)) := by
  intro c
  induction length : c.rest.length using Nat.strongRecOn generalizing c with
  | ind n ih =>
    rw [sidsUntilStep stop, sidsUntilStep (stop + k)]
    refine (placeMoves c).bind fun a c' ok => ?_
    cases ok
    have ahead : (c.moved k).pos < stop + k ↔ c.pos < stop := by
      simp only [Cursor.moved]
      omega
    by_cases more : c.pos < stop
    · rw [if_pos more, if_pos (ahead.mpr more)]
      refine (sidMoves c).bind fun s c' found => ?_
      have shorter := sidShortens _ _ _ found
      exact (ih c'.rest.length (by omega) c' rfl).bind fun rest c'' _ => doneMoves id (s :: rest) c''
    · rw [if_neg more, if_neg (mt ahead.mp more)]
      exact doneMoves id [] c

theorem bodyLengthMoves (nibble : Nat) : Moves k id (bodyLength nibble) (bodyLength nibble) := by
  unfold bodyLength
  split
  · exact varUIntMoves
  · exact doneMoves id nibble

theorem valueLengthMoves (type : ValueType) (descriptor : UInt8) :
    Moves k id (valueLength type descriptor) (valueLength type descriptor) := by
  have body : Moves k id (bodyLength (lowNibble descriptor)) (bodyLength (lowNibble descriptor)) :=
    bodyLengthMoves _
  unfold valueLength
  dsimp only
  split
  · exact doneMoves id 0
  · split
    · split
      · exact doneMoves id 0
      · exact failedMoves id (.badBool _)
    · split
      · exact failedMoves id .negativeZero
      · exact body
    · split
      · exact varUIntMoves
      · exact body
    · exact body

theorem valueMoves (scope : Option Container) (offset : Nat) (field : Option Nat)
    (annotations : List Nat) (descriptor : UInt8) :
    Moves k (Header.moved k) (value scope offset field annotations descriptor)
      (value scope (offset + k) field annotations descriptor) := by
  unfold value
  split
  · exact failedMoves _ (.badDescriptor descriptor)
  · exact (valueLengthMoves _ _).bind fun length => (withinMoves scope offset length).bind fun _ =>
      placeMoves.bind fun start => doneMoves (Header.moved k) _

theorem annotationsMoves (scope : Option Container) (offset stop : Nat) :
    Moves k id (annotations scope offset stop) (annotations scope (offset + k) (stop + k)) := by
  refine varUIntMoves.bind fun length => (withinMoves scope offset length).bind fun _ =>
    placeMoves.bind fun c => ?_
  have sidStop : (c.moved k).pos + length = c.pos + length + k := Nat.add_right_comm _ _ _
  dsimp only [id]
  rw [sidStop]
  refine (requireMoves (by rw [Nat.add_le_add_iff_right]) (.lengthMismatch offset)).bind fun _ =>
    (sidsUntilMoves _).bind fun sids => placeMoves.bind fun c' => ?_
  exact (requireMoves Nat.add_right_cancel_iff (.lengthMismatch offset)).bind fun _ => doneMoves id sids

theorem wrappedMoves (scope : Option Container) (offset : Nat) (field : Option Nat) (descriptor : UInt8) :
    Moves k (Header.moved k) (wrapped scope offset field descriptor)
      (wrapped scope (offset + k) field descriptor) := by
  refine (requireMoves Iff.rfl (.badDescriptor descriptor)).bind fun _ =>
    (bodyLengthMoves _).bind fun length => (withinMoves scope offset length).bind fun _ =>
      placeMoves.bind fun c => ?_
  have stop : (c.moved k).pos + length = c.pos + length + k := Nat.add_right_comm _ _ _
  dsimp only [id]
  rw [stop]
  refine (annotationsMoves scope offset _).bind fun sids => (takeMoves 1 Cursor.first).bind fun inner =>
    (requireMoves Iff.rfl (.badDescriptor inner)).bind fun _ =>
      (valueMoves scope offset field sids inner).bind fun h => ?_
  rw [Header.afterMoved]
  exact (requireMoves Nat.add_right_cancel_iff (.lengthMismatch offset)).bind fun _ => doneMoves _ h

theorem fieldNameMoves (scope : Option Container) : Moves k id (fieldName scope) (fieldName scope) := by
  unfold fieldName
  split
  · exact sidMoves.bind fun n => doneMoves id (some n)
  · exact doneMoves id none

theorem skipMoves (length : Nat) :
    Moves k id (modify fun c => c.advance length) (modify fun c => c.advance length) :=
  fun c => congrArg (EStateM.Result.ok ()) (c.advanceMoved length)

theorem paddingMoves (scope : Option Container) (offset : Nat) (descriptor : UInt8) :
    Moves k id (padding scope offset descriptor) (padding scope (offset + k) descriptor) :=
  (bodyLengthMoves _).bind fun length => (withinMoves scope offset length).bind fun _ => skipMoves length

theorem itemMoves (scope : Option Container) :
    Moves k (Option.map (Header.moved k)) (item scope) (item scope) := by
  refine placeMoves.bind fun c => (fieldNameMoves scope).bind fun field =>
    (takeMoves 1 Cursor.first).bind fun descriptor => ?_
  dsimp only [id]
  split
  · exact (paddingMoves scope c.pos descriptor).bind fun _ => doneMoves _ none
  · split
    · exact (wrappedMoves scope c.pos field descriptor).bind fun h => doneMoves _ (some h)
    · exact (valueMoves scope c.pos field [] descriptor).bind fun h => doneMoves _ (some h)

theorem topItemMoves : Moves k (TopItem.moved k) topItem topItem := by
  refine peekMoves.bind fun head => ?_
  dsimp only [id]
  split
  · exact (takeMoves 4 .ok).bind fun raw => (requireMoves Iff.rfl .badVersionMarker).bind fun _ =>
      doneMoves _ TopItem.marker
  · refine (itemMoves none).bind fun found => ?_
    cases found with
    | none => exact doneMoves _ TopItem.padding
    | some h => exact doneMoves _ (TopItem.value h)

theorem topItemMoved {c c' : Cursor} {found : TopItem} (scan : topItem c = .ok found c') :
    topItem (c.moved k) = .ok (found.moved k) (c'.moved k) := by
  rw [topItemMoves c, scan]
  rfl

end Scan

theorem childErrorMoved (offset : Nat) (e : IonError) :
    childError (offset + k) (e.moved k) = (childError offset e).moved k := by
  unfold childError
  by_cases early : e = .input .endOfInput
  · rw [early]
    rfl
  · have late : e.moved k ≠ .input .endOfInput := by
      cases e <;> first | exact early | exact nofun
    rw [if_neg early, if_neg late]

theorem nextChildStep {scope : Container} {c : Cursor} (inside : ¬c.atEnd) :
    nextChild scope c = match Scan.item (some scope) c with
      | .error e c' => .failed (childError c.pos e) c'
      | .ok none c' => nextChild scope c'
      | .ok (some h) _ => .value h := by
  rw [nextChild, if_neg inside]
  split <;> rename_i read <;> rw [read]

theorem nextChildMoved (scope : Container) (c : Cursor) :
    nextChild scope (c.moved k) = (nextChild scope c).moved k := by
  have moves (c : Cursor) := Scan.itemMoves (k := k) (some scope) c
  fun_induction nextChild scope c with
  | case1 c ended =>
    rw [nextChild, if_pos (c.atEndMoved.trans ended)]
    rfl
  | case2 c inside e c' scan =>
    have inside' : ¬(c.moved k).atEnd := by rwa [c.atEndMoved]
    rw [nextChildStep inside', moves c, scan]
    exact congrArg (Step.failed · (c'.moved k)) (childErrorMoved c.pos e)
  | case3 c inside c' scan ih =>
    have inside' : ¬(c.moved k).atEnd := by rwa [c.atEndMoved]
    rw [nextChildStep inside', moves c, scan]
    exact ih
  | case4 c inside h c' scan =>
    have inside' : ¬(c.moved k).atEnd := by rwa [c.atEndMoved]
    rw [nextChildStep inside', moves c, scan]
    rfl

theorem childrenStep (scope : Container) (c : Cursor) :
    children scope c = match nextChild scope c with
      | .exhausted c' => .done c'
      | .failed e c' => .failed e c'
      | .value h => .child h (children scope h.after) := by
  rw [children]
  split <;> rename_i walk <;> rw [walk]

theorem childrenMoved (scope : Container) (c : Cursor) :
    children scope (c.moved k) = (children scope c).moved k := by
  fun_induction children scope c with
  | case1 c c' walk | case2 c e c' walk =>
    rw [childrenStep, nextChildMoved, walk]
    rfl
  | case3 c h walk ih =>
    rw [childrenStep, nextChildMoved, walk]
    dsimp only [Step.moved]
    rw [h.afterMoved, ih]
    rfl

def StepMoves (k : Nat) (step : σ → Header → Except Halt σ) : Prop :=
  ∀ s h, step s (h.moved k) = (step s h).mapError (Halt.moved k)

theorem mapErrorBind (first : Except ε α) (next : α → Except ε β) (f : ε → ε') :
    (first >>= next).mapError f = first.mapError f >>= fun a => (next a).mapError f := by
  cases first <;> rfl

theorem Children.foldMoved {step : σ → Header → Except Halt σ} (steps : StepMoves k step) (s : σ)
    (children : Children) :
    (children.moved k).fold step s = (children.fold step s).mapError (Halt.moved k) := by
  induction children generalizing s with
  | done c => rfl
  | failed e c => rfl
  | child h rest ih =>
    simp only [moved, fold, steps s h, mapErrorBind]
    cases step s h with
    | error halt => rfl
    | ok s' => exact ih s'

theorem Header.foldMoved {step : σ → Header → Except Halt σ} (steps : StepMoves k step) (h : Header)
    (scope : Container) (init : σ) :
    (h.moved k).fold scope init step = (h.fold scope init step).mapError (Halt.moved k) := by
  unfold fold
  rw [bodyMoved, childrenMoved, Children.foldMoved steps]
  cases (children scope h.body).fold step init with
  | ok s => rfl
  | error halt =>
    have around : Halt.within scope (h.moved k) (halt.moved k) = (Halt.within scope h halt).moved k := by
      simp [Halt.within, Halt.moved, Entered.moved, afterMoved]
    exact congrArg Except.error around

def DecodesPlainly (decode : Bytes → Except IonError α) : Prop :=
  ∀ raw e, decode raw = .error e → e.isStructural = false

theorem Payload.textPlain : DecodesPlainly Payload.text := by
  intro raw e failed
  unfold text at failed
  split at failed <;> cases failed
  rfl

theorem Payload.symbolPlain : DecodesPlainly Payload.symbol := by
  intro raw e failed
  unfold symbol at failed
  split at failed <;> cases failed
  rfl

theorem Header.decodeMoved {decode : Bytes → Except IonError α} (plain : DecodesPlainly decode)
    (h : Header) : (h.moved k).decode decode = (h.decode decode).mapError (Halt.moved k) := by
  unfold Header.decode
  rw [payloadMoved]
  cases said : decode h.payload with
  | ok a => rfl
  | error e =>
    have same : (Halt.on e h).moved k = Halt.on e (h.moved k) := by
      simp only [Halt.on, Halt.moved, IonError.movedPlain (plain _ _ said)]
      rfl
    exact congrArg Except.error same.symm

theorem ImportEntry.memberMoves : StepMoves k ImportEntry.member := by
  intro entry h
  have same : (h.moved k).isNull = h.isNull ∧ (h.moved k).field = h.field ∧ (h.moved k).type = h.type :=
    ⟨rfl, rfl, rfl⟩
  unfold member
  simp only [same]
  split
  · rfl
  · split
    · rw [h.decodeMoved Payload.textPlain, mapErrorBind]
      rfl
    · have number : number? (h.moved k) = number? h := by
        unfold number?
        rw [h.payloadMoved]
        rfl
      rw [number]
      split
      · rfl
      · split <;> rfl

theorem ImportEntry.collectMoves : StepMoves k ImportEntry.collect := by
  intro entries h
  have same : (h.moved k).type = h.type ∧ (h.moved k).isNull = h.isNull := ⟨rfl, rfl⟩
  unfold collect
  simp only [same]
  split
  · rw [h.foldMoved memberMoves, mapErrorBind]
    rfl
  · rfl

theorem TableEntry.symbolMoves : StepMoves k TableEntry.symbol := by
  intro symbols h
  have same : (h.moved k).type = h.type ∧ (h.moved k).isNull = h.isNull := ⟨rfl, rfl⟩
  unfold symbol
  simp only [same]
  split
  · rw [h.decodeMoved Payload.textPlain, mapErrorBind]
    rfl
  · rfl

theorem TableEntry.memberMoves : StepMoves k TableEntry.member := by
  intro entry h
  have same : (h.moved k).isNull = h.isNull ∧ (h.moved k).field = h.field ∧ (h.moved k).type = h.type :=
    ⟨rfl, rfl, rfl⟩
  unfold member
  simp only [same]
  split
  · rfl
  · split
    · rw [h.decodeMoved Payload.symbolPlain, mapErrorBind]
      rfl
    · split
      · rw [h.foldMoved ImportEntry.collectMoves, mapErrorBind]
        rfl
      · split
        · rw [h.foldMoved symbolMoves, mapErrorBind]
          rfl
        · rfl

theorem TableEntry.readMoved (h : Header) :
    TableEntry.read (h.moved k) = (TableEntry.read h).mapError (Halt.moved k) :=
  h.foldMoved memberMoves .struct ⟨false, [], []⟩

theorem SymbolTable.loadMoved (catalog : Catalog) (current : SymbolTable) (h : Header) :
    current.load catalog (h.moved k) = (current.load catalog h).mapError (Halt.moved k) := by
  unfold load
  rw [TableEntry.readMoved, mapErrorBind]
  cases TableEntry.read h with
  | error halt => rfl
  | ok entry =>
    change (entry.install catalog current).mapError _ =
      ((entry.install catalog current).mapError _).mapError (Halt.moved k)
    rw [h.afterMoved]
    cases entry.install catalog current <;> rfl

theorem nextTopMoved (catalog : Catalog) (symbols : SymbolTable) (c : Cursor) :
    nextTop catalog symbols (c.moved k) =
      ((nextTop catalog symbols c).1, (nextTop catalog symbols c).2.moved k) := by
  fun_induction nextTop catalog symbols c with
  | case1 symbols c ended =>
    rw [nextTop, if_pos (c.atEndMoved.trans ended)]
    rfl
  | case2 symbols c inside e c' scan =>
    have inside' : ¬(c.moved k).atEnd := by rwa [c.atEndMoved]
    have scan' : Scan.topItem (c.moved k) = .error (e.moved k) (c'.moved k) := by
      rw [Scan.topItemMoves c, scan]
      rfl
    rw [nextTopFails inside' scan']
    rfl
  | case3 symbols c inside c' scan ih | case4 symbols c inside c' scan ih =>
    rw [nextTopScanned (Scan.topItemMoved scan)]
    exact ih
  | case5 symbols c inside h c' scan table loaded loads ih =>
    have table' : (h.moved k).isTable = true := table
    have loads' : symbols.load catalog (h.moved k) = .ok loaded := by
      rw [SymbolTable.loadMoved, loads]
      rfl
    rw [nextTopScanned (Scan.topItemMoved scan)]
    dsimp only [TopItem.moved]
    rw [if_pos table', loads', h.afterMoved]
    exact ih
  | case6 symbols c inside h c' scan table halt loads =>
    have table' : (h.moved k).isTable = true := table
    have loads' : symbols.load catalog (h.moved k) = .error (halt.moved k) := by
      rw [SymbolTable.loadMoved, loads]
      rfl
    rw [nextTopScanned (Scan.topItemMoved scan)]
    dsimp only [TopItem.moved]
    rw [if_pos table', loads']
    rfl
  | case7 symbols c inside h c' scan table =>
    have table' : ¬(h.moved k).isTable = true := table
    rw [nextTopScanned (Scan.topItemMoved scan)]
    dsimp only [TopItem.moved]
    rw [if_neg table']
    rfl

end Ion
