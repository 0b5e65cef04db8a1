import Ion.Proofs.Acceptance

/-! What a reader gives is what a writer takes: whatever the bytes are, decoded scalars have a
written form, names stand where they belong, and no value at the top level is a symbol table. -/
namespace Ion

open Scan Grammar

instance decidableResult [DecidableEq ε] [DecidableEq σ] [DecidableEq α] :
    DecidableEq (EStateM.Result ε σ α)
  | .ok a s, .ok b t => decidable_of_iff (a = b ∧ s = t) (by simp)
  | .error e s, .error f t => decidable_of_iff (e = f ∧ s = t) (by simp)
  | .ok _ _, .error _ _ => isFalse nofun
  | .error _ _, .ok _ _ => isFalse nofun

namespace Scan

theorem runOnOk {raw : Bytes} {act : Scan α} {a : α} (ok : runOn raw act = .ok a) :
    ∃ c, act (.ofBytes raw) = .ok a c := by
  unfold runOn at ok
  split at ok
  · cases ok
    exact ⟨_, ‹_›⟩
  · contradiction

end Scan

namespace Payload

theorem exponentFits {c c' : Cursor} {e : Int} (ok : exponent c = .ok e c') : e.natAbs < 2 ^ 63 := by
  obtain ⟨⟨negative, magnitude⟩, c1, _, ok⟩ := bindOk ok
  dsimp only at ok
  split at ok
  · rename_i fits
    cases ok
    unfold signed
    split <;> omega
  · contradiction

theorem decimalScale {raw : Bytes} {d : Decimal} (ok : decimal raw = .ok d) :
    d.scale ≠ Int64.minValue := by
  unfold decimal at ok
  split at ok
  · cases ok
    decide
  · obtain ⟨c, ok⟩ := runOnOk ok
    obtain ⟨e, c1, read, ok⟩ := bindOk ok
    obtain ⟨n, c2, _, ok⟩ := bindOk ok
    cases ok
    have fits := exponentFits read
    intro least
    have value := congrArg Int64.toInt least
    rw [Int64.toInt_ofInt_of_le (by omega) (by omega)] at value
    have lowest : Int64.minValue.toInt = -2 ^ 63 := rfl
    omega

theorem symbolFits {raw : Bytes} {sid : Nat} (ok : symbol raw = .ok sid) : sid ≤ Sid.last := by
  unfold symbol at ok
  split at ok
  · rename_i short
    cases ok
    have bound := Bytes.valueBound raw
    have most : 256 ^ raw.length ≤ 256 ^ 4 := Nat.pow_le_pow_right (by decide) short
    have last : Sid.last = 256 ^ 4 - 1 := rfl
    omega
  · contradiction

end Payload

namespace Grammar

theorem Symbols.fit {raw : Bytes} {sids : List Nat} (symbols : Symbols raw sids) :
    ∀ sid ∈ sids, sid ≤ Sid.last := by
  induction symbols with
  | nil => simp
  | cons first rest ih =>
    intro sid mem
    rcases List.mem_cons.mp mem with rfl | later
    · exact first.2
    · exact ih sid later

theorem Value.fit {whole : Bytes} {sids : List Nat} {s : Shape} {type : ValueType}
    (value : Value whole sids s type) : ∀ sid ∈ sids, sid ≤ Sid.last := by
  cases value with
  | bare => simp
  | wrapped wrapper => exact wrapper.names.fit

theorem namePresence {scope : Option Container} {named : Bytes} {field : Option Nat}
    (name : Name scope named field) :
    field.isSome = (scope == some .struct) ∧ ∀ sid ∈ field, sid ≤ Sid.last := by
  cases name with
  | none outside => simpa using outside
  | some member symbol =>
    subst member
    exact ⟨rfl, fun sid mem => by cases mem; exact symbol.2⟩

end Grammar

theorem Scan.Meets.labelled {scope : Option Container} {c : Cursor} {h : Header}
    (meets : Meets scope c (.value h)) (sound : c.Sound)
    (few : h.annotations.length ≤ SidWriter.annotationLimit) :
    Tree.Named (scope == some .struct) h.field h.annotations := by
  obtain ⟨c', _, spelled, _⟩ := meets.spelled sound
  cases spelled with
  | value name value ahead found =>
    obtain ⟨presence, fits⟩ := namePresence name
    rw [found.field, found.annotations] at *
    exact ⟨presence, few, fits, value.fit⟩

theorem Header.noTable {h : Header} {kind : Container} {children : List Tree}
    (holds : h.container? = some kind) (plain : h.isTable = false) :
    (Tree.container h.field h.annotations kind children).isTable = false := by
  obtain ⟨something, type⟩ := h.holdsIff.mp holds
  cases kind with
  | list | sexp => rfl
  | struct =>
    have struct : h.type = .struct := by
      cases known : h.type <;> rw [known] at type <;> simp [ValueType.container?] at type ⊢
    simpa [Header.isTable, struct, something, Tree.isTable] using plain

theorem Scan.Meets.plain {c : Cursor} {h : Header} (meets : Meets none c (.value h)) :
    h.isTable = false := by
  cases meets with
  | value passes inside scan plain => exact plain rfl

namespace Reader

section Standing

variable {r r' : Reader} {h : Header} (stands : r.position = .on h none)
include stands

theorem headerStands {expected : Expectation} {found : Header} (ok : r.header expected = .ok found) :
    found = h ∧ expected.admits h.type = true ∧ h.isNull = false := by
  simp only [header, current?, stands] at ok
  split at ok
  · rename_i admitted
    split at ok
    · contradiction
    · rename_i something
      cases ok
      exact ⟨rfl, admitted, by simpa using something⟩
  · contradiction

theorem scalarStands {type : ValueType} {v : Variant} (ok : scalar type r = .ok v r') :
    ∃ s, h.type = type ∧ h.scalar = .ok s ∧ v = some s ∧
      r' = { r with position := .on h (some s) } := by
  unfold scalar at ok
  cases asked : r.header (.type type) with
  | error e => simp [asked] at ok
  | ok found =>
    obtain ⟨rfl, admitted, -⟩ := headerStands stands asked
    simp only [asked, stands] at ok
    cases decoded : found.scalar with
    | error e => simp [decoded] at ok
    | ok s =>
      simp only [decoded, EStateM.Result.ok.injEq] at ok
      have type : type = found.type := by simpa [Expectation.admits] using admitted
      exact ⟨s, type.symm, rfl, ok.1.symm, ok.2.symm⟩

theorem gettingStands {type : ValueType} {get : Variant → Option α} {e : IonError} {a : α}
    (ok : getting type get e r = .ok a r') :
    ∃ s, h.type = type ∧ h.scalar = .ok s ∧ get (some s) = some a ∧
      r' = { r with position := .on h (some s) } := by
  obtain ⟨v, r1, read, ok⟩ := bindOk ok
  obtain ⟨s, type, decoded, rfl, rfl⟩ := scalarStands stands read
  cases got : get (some s) with
  | none =>
    rw [got] at ok
    contradiction
  | some b =>
    rw [got] at ok
    cases ok
    exact ⟨s, type, decoded, got, rfl⟩

end Standing

theorem lobStays {r r' : Reader} {raw : Bytes} (ok : lobBytes r = .ok raw r') : r' = r := by
  unfold lobBytes at ok
  split at ok
  · cases ok
    rfl
  · contradiction

theorem decimalFormed {h : Header} {s : Scalar} {d : Decimal} (type : h.type = .decimal)
    (decoded : h.scalar = .ok s) (got : Variant.decimal? (some s) = some d) :
    (Atom.decimal d).WellFormed := by
  rw [Header.scalar, type] at decoded
  dsimp only at decoded
  cases read : Payload.decimal h.payload with
  | error e => simp [read, Except.map] at decoded
  | ok d' =>
    simp only [read, Except.map, Except.ok.injEq] at decoded
    subst decoded
    cases got
    exact Payload.decimalScale read

theorem plainFormed {r r' : Reader} {h : Header} {type : ValueType} {a : Atom}
    (stands : r.position = .on h none) (read : plain type r = .ok a r') :
    a.WellFormed ∧ r'.inside = r.inside ∧ ∃ decoded, r'.position = .on h decoded := by
  cases type with
  | null | symbol | list | sexp | struct => contradiction
  | bool | int | float | timestamp | string =>
    obtain ⟨v, r1, got, read⟩ := bindOk read
    obtain ⟨s, -, -, -, rfl⟩ := gettingStands stands got
    cases read
    exact ⟨trivial, rfl, _, rfl⟩
  | decimal =>
    obtain ⟨d, r1, asked, read⟩ := bindOk read
    obtain ⟨s, type, decoded, got, rfl⟩ := gettingStands stands asked
    cases read
    exact ⟨decimalFormed type decoded got, rfl, _, rfl⟩
  | clob | blob =>
    obtain ⟨raw, r1, got, read⟩ := bindOk read
    cases lobStays got
    cases read
    exact ⟨trivial, rfl, _, stands⟩

theorem symbolDecodes {r : Reader} {sid : Nat} (read : r.symbol = .ok (r.symbols.token sid)) :
    ∃ h, r.header (.type .symbol) = .ok h ∧ Payload.symbol h.payload = .ok sid := by
  unfold symbol at read
  cases asked : r.header (.type .symbol) with
  | error e => simp [asked, bind, Except.bind] at read
  | ok h =>
    cases decoded : Payload.symbol h.payload with
    | error e => simp [asked, decoded, bind, Except.bind] at read
    | ok found =>
      simp only [asked, decoded, bind, Except.bind, pure, Except.pure, Except.ok.injEq] at read
      cases tokenInjective r.symbols read
      exact ⟨h, rfl, decoded⟩

theorem symbolFormed {r : Reader} {sid : Nat} (read : r.symbol = .ok (r.symbols.token sid)) :
    sid ≤ Sid.last := by
  obtain ⟨h, -, decoded⟩ := symbolDecodes read
  exact Payload.symbolFits decoded

end Reader

namespace Tree

mutual

def Few : Tree → Prop
  | atom _ sids _ => sids.length ≤ SidWriter.annotationLimit
  | container _ sids _ children => sids.length ≤ SidWriter.annotationLimit ∧ FewAll children

def FewAll : List Tree → Prop
  | [] => True
  | t :: rest => t.Few ∧ FewAll rest

end

end Tree

namespace Reader

def shown (items : List (SymbolTable × Tree)) : List Tree := items.map Prod.snd

theorem shownTogether (symbols : SymbolTable) (trees : List Tree) :
    shown (trees.map fun t => (symbols, t)) = trees := by
  rw [shown, List.map_map]
  exact List.map_id trees

theorem Reads.formed {r r' : Reader} {items : List (SymbolTable × Tree)} {c : Cursor}
    (reads : r.Reads items r') (ahead : r.Ahead c) (few : Tree.FewAll (shown items)) :
    r'.inside = r.inside ∧ Tree.WellFormedAll (r.scope == some .struct) (shown items) ∧
      (r.scope = none → ∀ t ∈ shown items, t.isTable = false) := by
  induction reads generalizing c with
  | done ended => exact ⟨(ahead.ended ended).2, trivial, by simp [shown]⟩
  | null found nothing bears more ih =>
    obtain ⟨h, rfl, rfl, rfl, meets, stands, inside⟩ := ahead.shows found bears
    have named := meets.labelled ahead.sound few.1
    obtain ⟨same, formed, plain⟩ := ih (aheadOn stands (meets.behind ahead.sound).2) few.2
    rw [scopeSame inside] at formed plain
    refine ⟨same.trans inside, ⟨⟨named, trivial⟩, formed⟩, fun top => ?_⟩
    exact List.forall_mem_cons.mpr ⟨rfl, plain top⟩
  | plain found something bears read more ih =>
    obtain ⟨h, rfl, rfl, rfl, meets, stands, inside⟩ := ahead.shows found bears
    have named := meets.labelled ahead.sound few.1
    obtain ⟨written, kept, decoded, stays⟩ := plainFormed stands read
    obtain ⟨same, formed, plain⟩ := ih (aheadOn stays (meets.behind ahead.sound).2) few.2
    rw [scopeSame (kept.trans inside)] at formed plain
    refine ⟨same.trans (kept.trans inside), ⟨⟨named, written⟩, formed⟩, fun top => ?_⟩
    exact List.forall_mem_cons.mpr ⟨rfl, plain top⟩
  | symbol found something bears read more ih =>
    obtain ⟨h, -, rfl, rfl, meets, stands, inside⟩ := ahead.shows found bears
    have named := meets.labelled ahead.sound few.1
    obtain ⟨same, formed, plain⟩ := ih (aheadOn stands (meets.behind ahead.sound).2) few.2
    rw [scopeSame inside] at formed plain
    refine ⟨same.trans inside, ⟨⟨named, symbolFormed read⟩, formed⟩, fun top => ?_⟩
    exact List.forall_mem_cons.mpr ⟨rfl, plain top⟩
  | @container r on inner ended back r' type field sids kind trees rest found something holds bears
      enter children leave more childrenIh moreIh =>
    obtain ⟨h, rfl, rfl, rfl, meets, stands, inside⟩ := ahead.shows found bears
    rw [nullOn stands] at something
    have named := meets.labelled ahead.sound few.1.1
    obtain ⟨kind', enters⟩ := enters stands (meets.behind ahead.sound) enter
    cases (h.holdsIff.mpr ⟨something, holds⟩).symm.trans enters.holds
    obtain ⟨stays, body, -⟩ := childrenIh enters.ahead (by rw [shownTogether]; exact few.1.2)
    rw [shownTogether, enters.scope] at body
    obtain ⟨later, outer⟩ := enters.leaves stays leave
    obtain ⟨same, formed, plain⟩ := moreIh later few.2
    rw [scopeSame (outer.trans inside)] at formed plain
    refine ⟨same.trans (outer.trans inside), ⟨⟨named, body⟩, formed⟩, fun top => ?_⟩
    rw [top] at meets
    exact List.forall_mem_cons.mpr ⟨Header.noTable enters.holds meets.plain, plain top⟩

end Reader

end Ion
