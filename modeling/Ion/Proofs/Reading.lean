import Ion.Proofs.Items
import Ion.Reader

/-! Reading a datagram by its calls: every value with its name and annotations, every container
entered and left again. There is one such reading, and over written trees it gives them back. -/
namespace Ion

namespace Reader

def lobBytes : Call Bytes := fun r =>
  match r.lob with
  | .ok raw => .ok raw r
  | .error e => .error e r

def plain : ValueType → Call Atom
  | .bool => do return .bool (← bool)
  | .int => do return .int (← integer)
  | .float => do return .float (← double)
  | .decimal => do return .decimal (← decimal)
  | .timestamp => do return .timestamp (← timestamp)
  | .string => do return .string (← string)
  | .clob => do return .clob (← lobBytes)
  | .blob => do return .blob (← lobBytes)
  | type => throw (.typeMismatch .scalar type)

structure Bears (r : Reader) (field : Option Nat) (sids : List Nat) : Prop where
  field : r.fieldToken? = field.map r.symbols.token
  annotations : r.annotations = sids.map r.symbols.token

/-- Reading on to the end of the container, entering every container on the way: the values with
the symbols in force at each, and the reader at the end. -/
inductive Reads : Reader → List (SymbolTable × Tree) → Reader → Prop
  | done {r r'} (ended : next r = .ok none r') : Reads r [] r'
  | null {r on r' type field sids rest} (found : next r = .ok (some type) on)
      (nothing : on.currentIsNull = true) (bears : on.Bears field sids) (more : Reads on rest r') :
      Reads r ((on.symbols, .atom field sids (.null type)) :: rest) r'
  | plain {r on on' r' type field sids a rest} (found : next r = .ok (some type) on)
      (something : on.currentIsNull = false) (bears : on.Bears field sids)
      (read : plain type on = .ok a on') (more : Reads on' rest r') :
      Reads r ((on.symbols, .atom field sids a) :: rest) r'
  | symbol {r on r' field sids sid rest} (found : next r = .ok (some .symbol) on)
      (something : on.currentIsNull = false) (bears : on.Bears field sids)
      (read : on.symbol = .ok (on.symbols.token sid)) (more : Reads on rest r') :
      Reads r ((on.symbols, .atom field sids (.symbol sid)) :: rest) r'
  | container {r on inner ended back r' type field sids kind trees rest}
      (found : next r = .ok (some type) on) (something : on.currentIsNull = false)
      (holds : type.container? = some kind) (bears : on.Bears field sids)
      (enter : stepIn on = .ok () inner)
      (children : Reads inner (trees.map fun t => (on.symbols, t)) ended)
      (leave : stepOut ended = .ok () back) (more : Reads back rest r') :
      Reads r ((on.symbols, .container field sids kind trees) :: rest) r'

theorem tokenInjective (symbols : SymbolTable) {a b : Nat}
    (same : symbols.token a = symbols.token b) : a = b :=
  Option.some.inj (SymbolToken.mk.inj same).2

theorem Bears.unique {r : Reader} {field field' : Option Nat} {sids sids' : List Nat}
    (one : r.Bears field sids) (two : r.Bears field' sids') : field = field' ∧ sids = sids' := by
  refine ⟨?_, ?_⟩
  · exact Option.map_injective (fun _ _ => tokenInjective r.symbols) (one.field.symm.trans two.field)
  · exact (List.map_inj_right fun _ _ => tokenInjective r.symbols).mp
      (one.annotations.symm.trans two.annotations)

theorem plainScalar {type : ValueType} {r r' : Reader} {a : Atom} (read : plain type r = .ok a r') :
    type ≠ .symbol ∧ type.container? = none := by
  cases type with
  | null | symbol | list | sexp | struct => contradiction
  | bool | int | float | decimal | timestamp | string | clob | blob => exact ⟨nofun, rfl⟩

section First

variable {r r' on : Reader} {type : ValueType} {items : List (SymbolTable × Tree)}

theorem Reads.ends {ended : Reader} (run : Reads r items r') (nothing : next r = .ok none ended) :
    items = [] ∧ r' = ended := by
  cases run with
  | done again =>
    cases nothing.symm.trans again
    exact ⟨rfl, rfl⟩
  | null found | plain found | symbol found | container found => cases nothing.symm.trans found

theorem Reads.nullFirst (run : Reads r items r') (found : next r = .ok (some type) on)
    (nothing : on.currentIsNull = true) :
    ∃ field sids rest, items = (on.symbols, .atom field sids (.null type)) :: rest ∧
      on.Bears field sids ∧ Reads on rest r' := by
  cases run with
  | done ended => cases found.symm.trans ended
  | null again _ bears more =>
    cases found.symm.trans again
    exact ⟨_, _, _, rfl, bears, more⟩
  | plain again something | symbol again something | container again something =>
    cases found.symm.trans again
    cases nothing.symm.trans something

theorem Reads.plainFirst {on' : Reader} {a : Atom} (run : Reads r items r')
    (found : next r = .ok (some type) on) (something : on.currentIsNull = false)
    (read : Reader.plain type on = .ok a on') :
    ∃ field sids rest, items = (on.symbols, .atom field sids a) :: rest ∧
      on.Bears field sids ∧ Reads on' rest r' := by
  obtain ⟨noSymbol, leaf⟩ := plainScalar read
  cases run with
  | done ended => cases found.symm.trans ended
  | null again nothing =>
    cases found.symm.trans again
    cases nothing.symm.trans something
  | plain again _ bears read' more =>
    cases found.symm.trans again
    cases read.symm.trans read'
    exact ⟨_, _, _, rfl, bears, more⟩
  | symbol again =>
    cases found.symm.trans again
    exact absurd rfl noSymbol
  | container again _ holds =>
    cases found.symm.trans again
    cases leaf.symm.trans holds

theorem Reads.symbolFirst {sid : Nat} (run : Reads r items r') (found : next r = .ok (some .symbol) on)
    (something : on.currentIsNull = false) (read : on.symbol = .ok (on.symbols.token sid)) :
    ∃ field sids rest, items = (on.symbols, .atom field sids (.symbol sid)) :: rest ∧
      on.Bears field sids ∧ Reads on rest r' := by
  cases run with
  | done ended => cases found.symm.trans ended
  | null again nothing =>
    cases found.symm.trans again
    cases nothing.symm.trans something
  | plain again _ _ read' =>
    cases found.symm.trans again
    exact absurd rfl (plainScalar read').1
  | symbol again _ bears read' more =>
    cases found.symm.trans again
    cases tokenInjective _ (Except.ok.inj (read.symm.trans read'))
    exact ⟨_, _, _, rfl, bears, more⟩
  | container again _ holds =>
    cases found.symm.trans again
    contradiction

theorem Reads.containerFirst {inner : Reader} {kind : Container} (run : Reads r items r')
    (found : next r = .ok (some type) on) (something : on.currentIsNull = false)
    (holds : type.container? = some kind) (enter : stepIn on = .ok () inner) :
    ∃ field sids trees ended back rest,
      items = (on.symbols, .container field sids kind trees) :: rest ∧ on.Bears field sids ∧
        Reads inner (trees.map fun t => (on.symbols, t)) ended ∧ stepOut ended = .ok () back ∧
          Reads back rest r' := by
  cases run with
  | done ended => cases found.symm.trans ended
  | null again nothing =>
    cases found.symm.trans again
    cases nothing.symm.trans something
  | plain again _ _ read =>
    cases found.symm.trans again
    cases (plainScalar read).2.symm.trans holds
  | symbol again =>
    cases found.symm.trans again
    contradiction
  | container again _ holds' bears enter' children leave more =>
    cases found.symm.trans again
    cases holds.symm.trans holds'
    cases enter.symm.trans enter'
    exact ⟨_, _, _, _, _, _, rfl, bears, children, leave, more⟩

end First

theorem Reads.unique {r r' r'' : Reader} {items items' : List (SymbolTable × Tree)}
    (one : Reads r items r') (two : Reads r items' r'') : items = items' ∧ r' = r'' := by
  induction one generalizing items' r'' with
  | done ended =>
    obtain ⟨rfl, rfl⟩ := two.ends ended
    exact ⟨rfl, rfl⟩
  | null found nothing bears more ih =>
    obtain ⟨_, _, _, rfl, bears', more'⟩ := two.nullFirst found nothing
    obtain ⟨rfl, rfl⟩ := bears.unique bears'
    obtain ⟨rfl, rfl⟩ := ih more'
    exact ⟨rfl, rfl⟩
  | plain found something bears read more ih =>
    obtain ⟨_, _, _, rfl, bears', more'⟩ := two.plainFirst found something read
    obtain ⟨rfl, rfl⟩ := bears.unique bears'
    obtain ⟨rfl, rfl⟩ := ih more'
    exact ⟨rfl, rfl⟩
  | symbol found something bears read more ih =>
    obtain ⟨_, _, _, rfl, bears', more'⟩ := two.symbolFirst found something read
    obtain ⟨rfl, rfl⟩ := bears.unique bears'
    obtain ⟨rfl, rfl⟩ := ih more'
    exact ⟨rfl, rfl⟩
  | container found something holds bears enter children leave more childrenIh moreIh =>
    obtain ⟨_, _, _, _, _, _, rfl, bears', children', leave', more'⟩ :=
      two.containerFirst found something holds enter
    obtain ⟨same, rfl⟩ := childrenIh children'
    cases (List.map_inj_right fun _ _ both => (Prod.mk.inj both).2).mp same
    cases leave.symm.trans leave'
    obtain ⟨rfl, rfl⟩ := bears.unique bears'
    obtain ⟨rfl, rfl⟩ := moreIh more'
    exact ⟨rfl, rfl⟩

section Standing

variable {r : Reader} {h : Header}

theorem headerOf (stands : r.position = .on h none) (something : h.isNull = false)
    {expected : Expectation} (admitted : expected.admits h.type = true) :
    r.header expected = .ok h := by
  simp only [header, current?, stands, admitted, something, if_true]
  rfl

theorem gettingReads (stands : r.position = .on h none) (something : h.isNull = false)
    {value : Scalar} (decoded : h.scalar = .ok value) (get : Variant → Option α) {a : α}
    (got : get (some value) = some a) (e : IonError) :
    getting h.type get e r = .ok a { r with position := .on h (some value) } := by
  have admitted : (Expectation.type h.type).admits h.type = true := by simp [Expectation.admits]
  have found : scalar h.type r = .ok (some value) { r with position := .on h (some value) } := by
    simp only [scalar, headerOf stands something admitted, stands, decoded]
  unfold getting
  rw [bindRuns found, got]
  rfl

theorem lobReads (stands : r.position = .on h none) (something : h.isNull = false)
    (bytes : h.type.isLob = true) :
    lobBytes r = .ok h.payload { r with position := .on h none } := by
  have admitted : Expectation.lob.admits h.type = true := bytes
  rw [lobBytes, Reader.lob, headerOf stands something admitted, ← stands]
  rfl

end Standing

end Reader

namespace Header.Found

variable {h : Header} {s : Shape} {field : Option Nat} {sids : List Nat} {c : Cursor} {size : Nat}
  {more : Bytes}

theorem isNull {a : Atom} (found : h.Found s a.type field sids c size more)
    (shape : a.shape? = .ok s) : h.isNull = a.isNull := by
  rw [Header.isNull, found.descriptor]
  exact Atom.shapeNull shape

theorem plain {a : Atom} (found : h.Found s a.type field sids c size more)
    (shape : a.shape? = .ok s) (something : a.isNull = false) (scalar : ∀ sid, a ≠ .symbol sid)
    {r : Reader} (stands : r.position = .on h none) :
    ∃ decoded, Reader.plain a.type r = .ok a { r with position := .on h decoded } := by
  have value := (found.isNull shape).trans something
  have type := found.type
  have payload := found.payload
  cases a with
  | null t => contradiction
  | symbol sid => exact absurd rfl (scalar sid)
  | bool b =>
    have read := Reader.gettingReads stands value (found.scalar shape rfl) Variant.bool? rfl
    rw [type] at read
    exact ⟨_, bindRuns (read .nullValue)⟩
  | int n =>
    have read := Reader.gettingReads stands value (found.scalar shape rfl) Variant.integer?
      (Payload.integerOfScalar n)
    rw [type] at read
    exact ⟨_, bindRuns (read .numericOverflow)⟩
  | float f =>
    have read := Reader.gettingReads stands value (found.scalar shape rfl) Variant.double? rfl
    rw [type] at read
    exact ⟨_, bindRuns (read .nullValue)⟩
  | decimal d =>
    have read := Reader.gettingReads stands value (found.scalar shape rfl) Variant.decimal? rfl
    rw [type] at read
    exact ⟨_, bindRuns (read .nullValue)⟩
  | timestamp t =>
    have read := Reader.gettingReads stands value (found.scalar shape rfl) Variant.timestamp? rfl
    rw [type] at read
    exact ⟨_, bindRuns (read .nullValue)⟩
  | string text =>
    have read := Reader.gettingReads stands value (found.scalar shape rfl) Variant.string? rfl
    rw [type] at read
    exact ⟨_, bindRuns (read .nullValue)⟩
  | clob raw | blob raw =>
    have bytes := Reader.lobReads stands value (by rw [type]; rfl)
    cases shape
    rw [payload, Shape.typedBody] at bytes
    exact ⟨none, bindRuns bytes⟩

theorem symbol {sid : Nat} (found : h.Found s (Atom.symbol sid).type field sids c size more)
    (shape : (Atom.symbol sid).shape? = .ok s) (fits : sid ≤ Sid.last) {r : Reader}
    (stands : r.position = .on h none) : r.symbol = .ok (r.symbols.token sid) := by
  have value := found.isNull shape
  have type := found.type
  have payload := found.payload
  cases shape
  rw [Shape.typedBody] at payload
  have small : sid < 2 ^ 32 := Nat.lt_of_le_of_lt fits (by decide)
  rw [Reader.symbol, Reader.headerOf stands value (by rw [type]; rfl)]
  simp only [bind, Except.bind, payload, Payload.symbolReads small]
  rfl

end Header.Found

namespace Tree

theorem encodeNotEmpty {t : Tree} {bytes : Bytes} (written : t.encode? = .ok bytes) : bytes ≠ [] := by
  obtain ⟨s, _, rfl⟩ := encodedShape written
  have value := wrapNotEmpty t.annotations s
  intro nothing
  rw [(List.append_eq_nil_iff.mp nothing).2] at value
  contradiction

theorem childFound {scope : Container} {t : Tree} {bytes : Bytes}
    (formed : t.WellFormed (scope == .struct)) (written : t.encode? = .ok bytes)
    (fits : bytes.length < 2 ^ 64) {c : Cursor} {more : Bytes} (sound : c.Sound)
    (ahead : c.rest = bytes ++ more) :
    ∃ s h, t.shape? = .ok s ∧ nextChild scope c = .value h ∧
      h.Found s t.type t.field t.annotations c bytes.length more := by
  have same : (some scope == some Container.struct) = (scope == .struct) := by cases scope <;> rfl
  rw [← same] at formed
  obtain ⟨s, h, shape, item, found⟩ := itemFound formed written fits sound ahead
  refine ⟨s, h, shape, ?_, found⟩
  have started : ¬c.atEnd := by
    rw [sound.atEnd, ahead]
    exact fun nothing => encodeNotEmpty written (List.append_eq_nil_iff.mp nothing).1
  rw [nextChild, if_neg started]
  split
  · rename_i failed
    rw [item] at failed
    contradiction
  · rename_i skipped
    rw [item] at skipped
    cases skipped
  · rename_i read
    rw [item] at read
    cases read
    rfl

theorem childrenEnd {scope : Container} {c : Cursor} (sound : c.Sound) (ended : c.rest = []) :
    nextChild scope c = .exhausted c := by
  rw [nextChild, if_pos (sound.atEnd.mpr ended)]

end Tree

theorem Header.Found.bears {h : Header} {s : Shape} {type : ValueType} {field : Option Nat}
    {sids : List Nat} {c : Cursor} {size : Nat} {more : Bytes}
    (found : h.Found s type field sids c size more) {on : Reader} (stands : on.position = .on h none) :
    on.Bears field sids := by
  refine ⟨?_, ?_⟩
  · simp [Reader.fieldToken?, Reader.current?, stands, found.field]
  · simp [Reader.annotations, Reader.current?, stands, found.annotations]

theorem Header.Found.reads {h : Header} {s : Shape} {a : Atom} {field : Option Nat} {sids : List Nat}
    {c : Cursor} {size : Nat} {more : Bytes} (found : h.Found s a.type field sids c size more)
    (shape : a.shape? = .ok s) (formed : a.WellFormed) {on : Reader}
    (stands : on.position = .on h none) :
    ∃ decoded, ∀ {r items r'}, Reader.next r = .ok (some a.type) on →
      Reader.Reads { on with position := .on h decoded } items r' →
        Reader.Reads r ((on.symbols, .atom field sids a) :: items) r' := by
  have bears := found.bears stands
  have flag : on.currentIsNull = a.isNull := by
    rw [Reader.currentIsNull, Reader.current?, stands]
    exact found.isNull shape
  have stays : { on with position := .on h none } = on := by rw [← stands]
  cases a with
  | null type =>
    refine ⟨none, fun next more => ?_⟩
    rw [stays] at more
    exact .null next flag bears more
  | symbol sid =>
    refine ⟨none, fun next more => ?_⟩
    rw [stays] at more
    exact .symbol next flag bears (found.symbol shape formed stands) more
  | bool | int | float | decimal | timestamp | string | clob | blob =>
    obtain ⟨decoded, read⟩ := found.plain shape rfl (fun _ => nofun) stands
    exact ⟨decoded, fun next more => .plain next flag bears read more⟩

mutual

theorem Tree.reads (t : Tree) {member : Bool} (formed : t.WellFormed member) {s : Shape}
    (shape : t.shape? = .ok s) (fits : s.body.length < 2 ^ 64) {h : Header} {c : Cursor} {size : Nat}
    {more : Bytes} (found : h.Found s t.type t.field t.annotations c size more) {on : Reader}
    (stands : on.position = .on h none) :
    ∃ p, (∀ {r items r'}, Reader.next r = .ok (some t.type) on →
        Reader.Reads { on with position := p } items r' →
          Reader.Reads r ((on.symbols, t) :: items) r') ∧
      Reader.next { on with position := p } = Reader.advance h.after { on with position := p } := by
  cases t with
  | atom field sids a =>
    obtain ⟨decoded, reads⟩ := found.reads shape formed.2 stands
    exact ⟨.on h decoded, reads, rfl⟩
  | container field sids kind children =>
    have type : h.type = kind.type := found.type
    obtain ⟨written, something⟩ := found.children shape
    have body : h.payload.length < 2 ^ 64 := by
      rw [found.payload]
      exact fits
    have enter : Reader.stepIn on =
        .ok () { on with inside := ⟨kind, h.after⟩ :: on.inside, position := .before h.body } := by
      simp [Reader.stepIn, Reader.current?, stands, type, kind.containerType, something]
    obtain ⟨c', inner⟩ := Tree.readsAll children formed.2 written body
      { on with inside := ⟨kind, h.after⟩ :: on.inside, position := .before h.body }
      rfl rfl rfl found.inner rfl
    have flag : on.currentIsNull = false := by
      rw [Reader.currentIsNull, Reader.current?, stands]
      exact something
    refine ⟨.before h.after, ?_, rfl⟩
    intro r items r' next more
    exact .container next flag kind.containerType (found.bears stands) enter inner rfl more

theorem Tree.readsAll (trees : List Tree) {member : Bool} (formed : Tree.WellFormedAll member trees)
    {bytes : Bytes} (written : Tree.encodeAll? trees = .ok bytes) (fits : bytes.length < 2 ^ 64)
    (r : Reader) {entered : Entered} {outer : List Entered} {c : Cursor}
    (scope : (entered.container == .struct) = member) (inside : r.inside = entered :: outer)
    (starts : Reader.next r = Reader.advance c r) (sound : c.Sound) (ahead : c.rest = bytes) :
    ∃ c', Reader.Reads r (trees.map fun t => (r.symbols, t)) { r with position := .exhausted c' } := by
  subst scope
  cases trees with
  | nil =>
    cases written
    refine ⟨c, .done ?_⟩
    rw [starts]
    simp only [Reader.advance, inside, Tree.childrenEnd sound ahead]
  | cons t rest =>
    rw [Tree.encodeAllEach] at written
    obtain ⟨first, more, one, others, rfl⟩ := Bytes.eachCons written
    rw [List.length_append] at fits
    obtain ⟨s, h, shape, next, found⟩ :=
      Tree.childFound formed.1 one (by omega) sound ahead
    have less := Tree.bodyShorter one shape
    have on : Reader.next r = .ok (some t.type) { r with position := .on h none } := by
      rw [starts]
      simp only [Reader.advance, inside, next, found.type]
    have stands : Reader.position { r with position := .on h none } = .on h none := rfl
    obtain ⟨p, reads, starts'⟩ := Tree.reads t formed.1 shape (by omega) found stands
    obtain ⟨after, left⟩ := found.behind
    rw [← Tree.encodeAllEach] at others
    obtain ⟨c', later⟩ := Tree.readsAll rest formed.2 others (by omega)
      { r with position := p } rfl inside starts' after left
    exact ⟨c', reads on later⟩

end

def Header.Is (h : Header) (t : Tree) : Prop :=
  ∃ s c size more, t.shape? = .ok s ∧ s.body.length < 2 ^ 64 ∧
    h.Found s t.type t.field t.annotations c size more

def Tree.isTable : Tree → Bool
  | .container _ sids .struct _ => sids.head? == some Sid.symbolTable
  | _ => false

theorem Header.Found.isTable {h : Header} {s : Shape} {t : Tree} {c : Cursor} {size : Nat}
    {more : Bytes} (found : h.Found s t.type t.field t.annotations c size more)
    (shape : t.shape? = .ok s) : h.isTable = t.isTable := by
  unfold Header.isTable
  rw [found.type, found.annotations]
  cases t with
  | atom field sids a =>
    have null := found.isNull shape
    cases a with
    | null type => simp [null, Atom.isNull, Tree.isTable]
    | bool | int | float | decimal | timestamp | symbol | string | clob | blob => rfl
  | container field sids kind children =>
    have something := (found.children shape).2
    cases kind with
    | list | sexp => rfl
    | struct => simp [something, Tree.isTable, Tree.type, Container.type, Tree.annotations]

theorem Scan.peekReads {c : Cursor} {b : UInt8} {more : Bytes} (sound : c.Sound)
    (ahead : c.rest = b :: more) : lift Cursor.peek c = .ok b c := by
  have split : c.rest = [b] ++ more := ahead
  have room : c.pos + 1 ≤ c.stop := sound.room split
  simp [lift, EStateM.adaptExcept, Cursor.peek, room, ahead, Cursor.first]

theorem Tree.topFound {t : Tree} {bytes : Bytes} (formed : t.WellFormed false)
    (written : t.encode? = .ok bytes) (fits : bytes.length < 2 ^ 64) {c : Cursor} {more : Bytes}
    (sound : c.Sound) (ahead : c.rest = bytes ++ more) :
    ∃ s h, t.shape? = .ok s ∧ Scan.topItem c = .ok (.value h) h.start ∧
      h.Found s t.type t.field t.annotations c bytes.length more := by
  obtain ⟨b, rest, rfl, marker⟩ := firstByte formed written fits
  have unnamed : t.WellFormed ((none : Option Container) == some .struct) := formed
  obtain ⟨s, h, shape, item, found⟩ := itemFound unnamed written fits sound ahead
  refine ⟨s, h, shape, ?_, found⟩
  unfold Scan.topItem
  rw [bindRuns (Scan.peekReads sound ahead), if_neg marker, bindRuns item]
  rfl

theorem Tree.nextTop {t : Tree} {bytes : Bytes} (formed : t.WellFormed false)
    (plain : t.isTable = false) (written : t.encode? = .ok bytes) (fits : bytes.length < 2 ^ 64)
    {c : Cursor} {more : Bytes} (sound : c.Sound) (ahead : c.rest = bytes ++ more)
    (catalog : Catalog) (symbols : SymbolTable) :
    ∃ s h, t.shape? = .ok s ∧ Ion.nextTop catalog symbols c = (symbols, .value h) ∧
      h.Found s t.type t.field t.annotations c bytes.length more := by
  obtain ⟨s, h, shape, item, found⟩ := topFound formed written fits sound ahead
  refine ⟨s, h, shape, ?_, found⟩
  have table := (found.isTable shape).trans plain
  rw [nextTopScanned item]
  dsimp only
  rw [table]
  rfl

/-- What a reader with this catalog shows of the items of a datagram, and how they change the
symbols in force: version markers and symbol tables show nothing. -/
inductive Surfaces (catalog : Catalog) :
    SymbolTable → List Item → List (SymbolTable × Tree) → SymbolTable → Prop
  | done {symbols} : Surfaces catalog symbols [] [] symbols
  | marker {symbols last items shown} (more : Surfaces catalog .system items shown last) :
      Surfaces catalog symbols (.versionMarker :: items) shown last
  | table {symbols symbols' last t items shown} (formed : t.WellFormed false)
      (table : t.isTable = true)
      (loads : ∀ {h : Header}, h.Is t → symbols.load catalog h = .ok symbols')
      (more : Surfaces catalog symbols' items shown last) :
      Surfaces catalog symbols (.value t :: items) shown last
  | value {symbols last t items shown} (formed : t.WellFormed false) (plain : t.isTable = false)
      (more : Surfaces catalog symbols items shown last) :
      Surfaces catalog symbols (.value t :: items) ((symbols, t) :: shown) last

theorem Surfaces.forest (catalog : Catalog) (symbols : SymbolTable) {trees : List Tree}
    (formed : Tree.WellFormedAll false trees) (plain : ∀ t ∈ trees, t.isTable = false) :
    Surfaces catalog symbols (trees.map .value) (trees.map fun t => (symbols, t)) symbols := by
  induction trees with
  | nil => exact .done
  | cons t rest ih =>
    exact .value formed.1 (plain t List.mem_cons_self)
      (ih formed.2 fun u mem => plain u (List.mem_cons_of_mem t mem))

theorem Surfaces.append {catalog : Catalog} {first middle last : SymbolTable} {left right : List Item}
    {shown shown' : List (SymbolTable × Tree)} (one : Surfaces catalog first left shown middle)
    (two : Surfaces catalog middle right shown' last) :
    Surfaces catalog first (left ++ right) (shown ++ shown') last := by
  induction one with
  | done => exact two
  | marker more ih => exact .marker (ih two)
  | table formed table loads more ih => exact .table formed table loads (ih two)
  | value formed plain more ih => exact .value formed plain (ih two)

theorem Reader.Reads.from {r s r' : Reader} {items : List (SymbolTable × Tree)}
    (same : Reader.next r = Reader.next s) (reads : Reader.Reads s items r') :
    Reader.Reads r items r' := by
  cases reads with
  | done ended => exact .done (same.trans ended)
  | null found nothing bears more => exact .null (same.trans found) nothing bears more
  | plain found something bears read more => exact .plain (same.trans found) something bears read more
  | symbol found something bears read more => exact .symbol (same.trans found) something bears read more
  | container found something holds bears enter children leave more =>
    exact .container (same.trans found) something holds bears enter children leave more

theorem Reader.advanceSame {r : Reader} {c c' : Cursor} {symbols : SymbolTable} (top : r.inside = [])
    (walk : nextTop r.catalog r.symbols c = nextTop r.catalog symbols c') :
    Reader.advance c r = Reader.next { r with symbols, position := .before c' } := by
  simp only [Reader.next, Reader.advance, Reader.halt, top, walk]

theorem Scan.takesMarker {c : Cursor} {more : Bytes} (sound : c.Sound)
    (ahead : c.rest = versionMarker ++ more) :
    topItem c = .ok .marker (c.advance versionMarker.length) := by
  have room : c.pos + 4 ≤ c.stop := sound.room ahead
  have marker : c.rest.take 4 = versionMarker := by
    rw [ahead]
    rfl
  have taken : lift (Cursor.bytes 4) c = .ok versionMarker (c.advance versionMarker.length) := by
    simp only [lift, EStateM.adaptExcept, Cursor.bytes, Cursor.take, if_pos room, marker]
    rfl
  unfold topItem
  rw [bindRuns (peekReads sound ahead), if_pos rfl, bindRuns taken, bindRuns (requireMet rfl _ _)]
  rfl

theorem markerNext {c : Cursor} {more : Bytes} (sound : c.Sound)
    (ahead : c.rest = versionMarker ++ more) (catalog : Catalog) (symbols : SymbolTable) :
    nextTop catalog symbols c = nextTop catalog .system (c.advance versionMarker.length) := by
  rw [nextTopScanned (Scan.takesMarker sound ahead)]

theorem Tree.nextTable {t : Tree} {bytes : Bytes} (formed : t.WellFormed false)
    (table : t.isTable = true) (written : t.encode? = .ok bytes) (fits : bytes.length < 2 ^ 64)
    {c : Cursor} {more : Bytes} (sound : c.Sound) (ahead : c.rest = bytes ++ more)
    {catalog : Catalog} {symbols symbols' : SymbolTable}
    (loads : ∀ {h : Header}, h.Is t → symbols.load catalog h = .ok symbols') :
    Ion.nextTop catalog symbols c = Ion.nextTop catalog symbols' (c.advance bytes.length) := by
  obtain ⟨s, h, shape, item, found⟩ := topFound formed written fits sound ahead
  have less := bodyShorter written shape
  have loaded := loads ⟨s, c, bytes.length, more, shape, by omega, found⟩
  have recognised := (found.isTable shape).trans table
  rw [nextTopScanned item]
  dsimp only
  rw [if_pos recognised, loaded, ← found.after]

theorem Surfaces.reads {catalog : Catalog} {symbols : SymbolTable} {items : List Item}
    {shown : List (SymbolTable × Tree)} {last : SymbolTable}
    (surfaces : Surfaces catalog symbols items shown last) {bytes : Bytes}
    (written : Item.encodeAll? items = .ok bytes) (fits : bytes.length < 2 ^ 64)
    {r : Reader} {c : Cursor} (known : r.catalog = catalog) (inForce : r.symbols = symbols)
    (top : r.inside = []) (starts : Reader.next r = Reader.advance c r) (sound : c.Sound)
    (ahead : c.rest = bytes) : ∃ r', Reader.Reads r shown r' := by
  induction surfaces generalizing bytes r c with
  | done =>
    cases written
    have ended : nextTop r.catalog r.symbols c = (r.symbols, .exhausted c) := by
      rw [nextTop, if_pos (sound.atEnd.mpr ahead)]
    refine ⟨{ r with position := .exhausted c }, .done ?_⟩
    rw [starts]
    simp only [Reader.advance, top, ended]
  | @marker symbols last items shown more ih =>
    obtain ⟨first, rest, one, others, rfl⟩ := Bytes.eachCons written
    cases one
    rw [List.length_append] at fits
    have walk := markerNext sound ahead r.catalog r.symbols
    obtain ⟨r', reads⟩ := @ih rest others (by omega)
      { r with symbols := .system, position := .before (c.advance versionMarker.length) } _
      known rfl top rfl (sound.behind ahead) (Cursor.advanceRest ahead)
    exact ⟨r', reads.from (starts.trans (Reader.advanceSame top walk))⟩
  | @table symbols symbols' last t items shown formed table loads more ih =>
    obtain ⟨first, rest, one, others, rfl⟩ := Bytes.eachCons written
    rw [List.length_append] at fits
    have walk := Tree.nextTable formed table one (by omega) sound ahead loads
    rw [← known, ← inForce] at walk
    obtain ⟨r', reads⟩ := @ih rest others (by omega)
      { r with symbols := symbols', position := .before (c.advance first.length) } _
      known rfl top rfl (sound.behind ahead) (Cursor.advanceRest ahead)
    exact ⟨r', reads.from (starts.trans (Reader.advanceSame top walk))⟩
  | @value symbols last t items shown formed plain more ih =>
    obtain ⟨first, rest, one, others, rfl⟩ := Bytes.eachCons written
    rw [List.length_append] at fits
    obtain ⟨s, h, shape, walk, found⟩ :=
      Tree.nextTop formed plain one (by omega) sound ahead r.catalog r.symbols
    have less := Tree.bodyShorter one shape
    have on : Reader.next r = .ok (some t.type) { r with position := .on h none } := by
      rw [starts]
      simp only [Reader.advance, top, walk, found.type]
    have stands : Reader.position { r with position := .on h none } = .on h none := rfl
    obtain ⟨p, reads, starts'⟩ := Tree.reads t formed shape (by omega) found stands
    obtain ⟨after, left⟩ := found.behind
    obtain ⟨r', later⟩ := @ih rest others (by omega) { r with position := p } _
      known inForce top starts' after left
    rw [← inForce]
    exact ⟨r', reads on later⟩

theorem Surfaces.datagram {catalog : Catalog} {symbols last : SymbolTable} {items : List Item}
    {shown : List (SymbolTable × Tree)}
    (surfaces : Surfaces catalog symbols (.versionMarker :: items) shown last) {bytes : Bytes}
    (written : Item.encodeAll? (.versionMarker :: items) = .ok bytes)
    (fits : bytes.length < 2 ^ 64) :
    ∃ r r', Reader.of catalog bytes = .ok r ∧ r.Reads shown r' := by
  cases surfaces with
  | marker more =>
    obtain ⟨first, rest, one, _, split⟩ := Bytes.eachCons written
    cases one
    have marked : versionMarker.isPrefixOf bytes = true := by
      rw [split, List.isPrefixOf_iff_prefix]
      exact List.prefix_append versionMarker rest
    have opened : Reader.of catalog bytes = .ok ⟨catalog, .system, [], .before (.ofBytes bytes)⟩ :=
      if_pos marked
    have whole : Surfaces catalog .system (.versionMarker :: items) shown last := .marker more
    obtain ⟨r', reads⟩ := whole.reads written fits
      (r := ⟨catalog, .system, [], .before (.ofBytes bytes)⟩) rfl rfl rfl rfl
      (Cursor.ofBytesSound bytes) rfl
    exact ⟨_, r', opened, reads⟩

end Ion
