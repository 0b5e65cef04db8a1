import Ion.Json.Reading
import Ion.Proofs.Outlines

/-! Trees and JSON out of written values: a header that was found leads to the whole tree, and over a
datagram the JSON is that of the values a reader shows. -/
namespace Ion

theorem Atom.scalarAtom {a : Atom} {value : Scalar} (holds : a.scalar? = some value) :
    value.atom = a := by
  cases a with
  | int n =>
    cases holds
    have wide := Payload.integerOfScalar n
    generalize Scalar.integer n = value at wide
    cases value with
    | int | long | big =>
      cases wide
      rfl
    | bool | double | decimal | string | timestamp => contradiction
  | bool | float | decimal | timestamp | string =>
    cases holds
    rfl
  | null | symbol | clob | blob => contradiction

namespace Header.Found

variable {h : Header} {s : Shape} {field : Option Nat} {sids : List Nat} {c : Cursor} {size : Nat}
  {more : Bytes}

theorem atomRead {a : Atom} (found : h.Found s a.type field sids c size more)
    (shape : a.shape? = .ok s) (formed : a.WellFormed) : h.atom = .ok a := by
  have flag := found.isNull shape
  have type := found.type
  have payload := found.payload
  unfold Header.atom
  rw [flag, type]
  cases a with
  | null type => rfl
  | symbol sid =>
    cases shape
    have small : sid < 2 ^ 32 := Nat.lt_of_le_of_lt formed (by decide)
    rw [Shape.typedBody] at payload
    simp only [Atom.isNull, Bool.false_eq_true, if_false, Atom.type, payload, Payload.symbolReads small]
    rfl
  | clob raw | blob raw =>
    cases shape
    rw [Shape.typedBody] at payload
    simp only [Atom.isNull, Bool.false_eq_true, if_false, Atom.type, payload]
  | bool | int | float | decimal | timestamp | string =>
    simp only [Atom.isNull, Bool.false_eq_true, if_false, Atom.type, found.scalar shape rfl, Except.map,
      Except.ok.injEq]
    exact Atom.scalarAtom rfl

theorem atomLeaf {a : Atom} (found : h.Found s a.type field sids c size more)
    (shape : a.shape? = .ok s) : h.container? = none := by
  rw [Header.container?, found.isNull shape, found.type]
  cases a <;> rfl

end Header.Found

theorem treesNext (scope : Container) (c : Cursor) :
    trees scope c =
      match nextChild scope c with
      | .exhausted _ => .ok []
      | .failed e c => .error (.before e c)
      | .value h =>
        match h.tree with
        | .error halt => .error halt
        | .ok t =>
          match trees scope h.after with
          | .error halt => .error halt
          | .ok rest => .ok (t :: rest) := by
  rw [trees]
  split
  · rename_i ended
    rw [ended]
  · rename_i failed
    rw [failed]
  · rename_i found
    exact found ▸ rfl

mutual

theorem Tree.fromHeader (t : Tree) {member : Bool} (formed : t.WellFormed member) {s : Shape}
    (shape : t.shape? = .ok s) (fits : s.body.length < 2 ^ 64) {h : Header} {c : Cursor} {size : Nat}
    {more : Bytes} (found : h.Found s t.type t.field t.annotations c size more) : h.tree = .ok t := by
  cases t with
  | atom field sids a =>
    rw [Header.tree, found.atomLeaf shape, found.field, found.annotations]
    dsimp only
    rw [found.atomRead shape formed.2]
    rfl
  | container field sids kind children =>
    obtain ⟨written, something⟩ := found.children shape
    have body : h.payload.length < 2 ^ 64 := by rwa [found.payload]
    have holds : h.container? = some kind :=
      found.holds.mpr ⟨found.null.symm.trans something, kind.containerType⟩
    rw [Header.tree, holds, found.field, found.annotations]
    dsimp only
    rw [Tree.fromBody children formed.2 written body found.inner rfl]
    rfl

theorem Tree.fromBody (children : List Tree) {kind : Container}
    (formed : Tree.WellFormedAll (kind == .struct) children) {bytes : Bytes}
    (written : Tree.encodeAll? children = .ok bytes) (fits : bytes.length < 2 ^ 64) {c : Cursor}
    (sound : c.Sound) (ahead : c.rest = bytes) : trees kind c = .ok children := by
  cases children with
  | nil =>
    cases written
    rw [treesNext, Tree.childrenEnd sound ahead]
  | cons t rest =>
    rw [Tree.encodeAllEach] at written
    obtain ⟨first, more, one, others, rfl⟩ := Bytes.eachCons written
    rw [List.length_append] at fits
    obtain ⟨s, h, shape, next, found⟩ := Tree.childFound formed.1 one (by omega) sound ahead
    have less := Tree.bodyShorter one shape
    obtain ⟨after, left⟩ := found.behind
    rw [← Tree.encodeAllEach] at others
    rw [treesNext, next]
    dsimp only
    rw [Tree.fromHeader t formed.1 shape (by omega) found]
    dsimp only
    rw [Tree.fromBody rest formed.2 others (by omega) after left]

end

theorem jsonFromNext (symbols : SymbolTable) (c : Cursor) :
    jsonFrom symbols c =
      match nextTop .empty symbols c with
      | (_, .exhausted _) => .ok []
      | (_, .halted halt) => .error halt.error
      | (symbols, .value h) => do
        let t ← h.tree.mapError Halt.error
        let rest ← jsonFrom symbols h.after
        return t.json symbols :: rest := by
  rw [jsonFrom]
  split
  · rename_i ended
    rw [ended]
  · rename_i halted
    rw [halted]
  · rename_i found
    rw [found]

theorem jsonFromSame {symbols symbols' : SymbolTable} {c c' : Cursor}
    (walk : nextTop .empty symbols c = nextTop .empty symbols' c') :
    jsonFrom symbols c = jsonFrom symbols' c' := by
  rw [jsonFromNext, walk, ← jsonFromNext]

theorem Surfaces.json {symbols last : SymbolTable} {items : List Item} {shown : List (SymbolTable × Tree)}
    (surfaces : Surfaces .empty symbols items shown last) {bytes : Bytes}
    (written : Item.encodeAll? items = .ok bytes) (fits : bytes.length < 2 ^ 64) {c : Cursor}
    (sound : c.Sound) (ahead : c.rest = bytes) :
    jsonFrom symbols c = .ok (shown.map fun (t, tree) => tree.json t) := by
  induction surfaces generalizing bytes c with
  | done =>
    cases written
    rw [jsonFromNext, nextTop, if_pos (sound.atEnd.mpr ahead)]
    rfl
  | marker more ih =>
    obtain ⟨first, rest, one, others, rfl⟩ := Bytes.eachCons written
    cases one
    rw [List.length_append] at fits
    rw [jsonFromSame (markerNext sound ahead .empty _)]
    exact ih others (by omega) (sound.behind ahead) (Cursor.advanceRest ahead)
  | table formed table loads more ih =>
    obtain ⟨first, rest, one, others, rfl⟩ := Bytes.eachCons written
    rw [List.length_append] at fits
    rw [jsonFromSame (Tree.nextTable formed table one (by omega) sound ahead loads)]
    exact ih others (by omega) (sound.behind ahead) (Cursor.advanceRest ahead)
  | @value symbols last t items shown formed plain more ih =>
    obtain ⟨first, rest, one, others, rfl⟩ := Bytes.eachCons written
    rw [List.length_append] at fits
    obtain ⟨s, h, shape, walk, found⟩ :=
      Tree.nextTop formed plain one (by omega) sound ahead .empty symbols
    have less := Tree.bodyShorter one shape
    obtain ⟨after, left⟩ := found.behind
    rw [jsonFromNext, walk]
    dsimp only
    rw [Tree.fromHeader t formed shape (by omega) found]
    change (jsonFrom symbols h.after >>= fun rest => .ok (t.json symbols :: rest)) = _
    rw [ih others (by omega) after left]
    rfl

theorem Surfaces.decodes {symbols last : SymbolTable} {items : List Item}
    {shown : List (SymbolTable × Tree)}
    (surfaces : Surfaces .empty symbols (.versionMarker :: items) shown last) {bytes : Bytes}
    (written : Item.encodeAll? (.versionMarker :: items) = .ok bytes) (fits : bytes.length < 2 ^ 64) :
    JsonValue.decode bytes = .ok (shown.map fun (t, tree) => tree.json t) := by
  cases surfaces with
  | marker more =>
    obtain ⟨first, rest, one, _, split⟩ := Bytes.eachCons written
    cases one
    have marked : versionMarker.isPrefixOf bytes = true := by
      rw [split, List.isPrefixOf_iff_prefix]
      exact List.prefix_append versionMarker rest
    have whole : Surfaces .empty .system (.versionMarker :: items) shown last := .marker more
    rw [JsonValue.decode, if_pos marked]
    exact whole.json written fits (Cursor.ofBytesSound bytes) rfl

end Ion
