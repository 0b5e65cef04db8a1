import Ion.Proofs.Lookups
import Ion.WordSymbols

/-! Symbol tables on words of 32 bits against those on numbers. As long as the imports end before the greatest
symbol ID, and the whole table at it or before, every sum and every difference is a word. -/
namespace Ion

namespace Word

variable {a b : Nat}

theorem toNatOf (fits : a ≤ Sid.last) : (UInt32.ofNat a).toNat = a := by
  rw [UInt32.toNat_ofNat']
  exact Nat.mod_eq_of_lt (Nat.lt_succ_of_le fits)

theorem plusChecked (left : a ≤ Sid.last) (right : b ≤ Sid.last) :
    plus? (.ofNat a) (.ofNat b) = if a + b ≤ Sid.last then some (.ofNat (a + b)) else none := by
  rw [plus?, toNatOf left, toNatOf right, UInt32.ofNat_add]

theorem plusFits (fits : a + b ≤ Sid.last) : plus (.ofNat a) (.ofNat b) = .ok (.ofNat (a + b)) := by
  rw [plus, plusChecked (by omega) (by omega), if_pos fits]

theorem plusOne (fits : a + 1 ≤ Sid.last) : plus (.ofNat a) 1 = .ok (.ofNat (a + 1)) := plusFits fits

theorem minusFits (below : b ≤ a) (fits : a ≤ Sid.last) :
    minus (.ofNat a) (.ofNat b) = .ok (.ofNat (a - b)) := by
  have le : UInt32.ofNat b ≤ UInt32.ofNat a := by
    rw [UInt32.le_iff_toNat_le, toNatOf fits, toNatOf (by omega)]
    exact below
  rw [minus, if_pos le]
  refine congrArg Except.ok (UInt32.toNat_inj.mp ?_)
  rw [UInt32.toNat_sub_of_le _ _ le, toNatOf fits, toNatOf (by omega), toNatOf (by omega)]

theorem minusOne (fits : a + 1 ≤ Sid.last) : minus (.ofNat (a + 1)) 1 = .ok (.ofNat a) :=
  minusFits (b := 1) (by omega) fits

theorem leFits (left : a ≤ Sid.last) (right : b ≤ Sid.last) : UInt32.ofNat a ≤ .ofNat b ↔ a ≤ b := by
  rw [UInt32.le_iff_toNat_le, toNatOf left, toNatOf right]

theorem ltFits (left : a ≤ Sid.last) (right : b ≤ Sid.last) : UInt32.ofNat a < .ofNat b ↔ a < b := by
  rw [UInt32.lt_iff_toNat_lt, toNatOf left, toNatOf right]

end Word

open Word

section Layers

variable {t : IndexedTable} {first length : Nat}

theorem WordTable.textFits {position : Nat} (fits : position ≤ Sid.last) :
    (WordTable.of t).text? (.ofNat position) = t.text? position := by
  cases position with
  | zero => rfl
  | succ i =>
    have nonzero : ¬UInt32.ofNat (i + 1) = 0 := by
      rw [← UInt32.toNat_inj, toNatOf fits]
      exact Nat.succ_ne_zero i
    have before : UInt32.ofNat (i + 1) - 1 = .ofNat i := by
      rw [UInt32.ofNat_add]
      exact UInt32.add_sub_cancel _ _
    rw [WordTable.text?, if_neg nonzero, before, toNatOf (by omega)]
    rfl

theorem WordTable.findFits (slots : t.slots.length ≤ Sid.last) (room : first + length < Sid.last)
    (text : String) :
    (WordTable.of t).find (.ofNat (first + 1)) (.ofNat length) text =
      .ok (((t.place? text).filter (· ≤ length)).map fun place => .ofNat (first + place)) := by
  have place : (WordTable.of t).place? text = (t.place? text).map UInt32.ofNat := Std.HashMap.getElem?_map
  rw [WordTable.find, place]
  cases found : t.place? text with
  | none => rfl
  | some place =>
    have bound : place ≤ Sid.last := by
      rw [t.placeSame, SharedTable.position?, Option.map_eq_some_iff] at found
      obtain ⟨i, slot, rfl⟩ := found
      exact Nat.le_trans (List.idxOf?_eq_some_iff.mp slot).1 slots
    have same : UInt32.ofNat place ≤ .ofNat length ↔ place ≤ length := leFits bound (by omega)
    by_cases inside : place ≤ length
    · have sum := plusFits (a := first + 1) (b := place) (by omega)
      rw [Nat.add_right_comm] at sum
      have difference := minusOne (a := first + place) (by omega)
      simp only [Option.map_some, Option.filter_some, same, inside, decide_true, if_true, bind, Except.bind,
        sum, difference]
      rfl
    · simp only [Option.map_some, Option.filter_some, same, inside, decide_false, Bool.false_eq_true, if_false,
        Option.map_none]

namespace WordChain

theorem layerMaxIdFits (room : first + length < Sid.last) :
    layerMaxId (.ofNat (first + 1)) (.ofNat length) = .ok (.ofNat (first + length)) := by
  have sum := plusFits (a := first + 1) (b := length) (by omega)
  rw [Nat.add_right_comm] at sum
  rw [layerMaxId, sum]
  exact minusOne room

theorem layerTextFits (room : first + length < Sid.last) {sid : Nat} (fits : sid ≤ Sid.last)
    (inside : first < sid) :
    layerText (.of t) (.ofNat (first + 1)) (.ofNat length) (.ofNat sid) =
      .ok (if first + length < sid then none else t.text? (sid - first)) := by
  have difference := minusFits (a := sid) (b := first + 1) inside fits
  have sum := plusOne (a := sid - (first + 1)) (by omega)
  have same : sid - (first + 1) + 1 = sid - first := by omega
  rw [same] at sum
  have last := ltFits (a := first + length) (b := sid) (by omega) fits
  simp only [layerText, layerMaxIdFits room, bind, Except.bind, last]
  by_cases behind : first + length < sid
  · rw [if_pos behind, if_pos behind]
    rfl
  · rw [if_neg behind, if_neg behind, difference]
    dsimp only
    rw [sum]
    exact congrArg Except.ok (WordTable.textFits (by omega))

end WordChain

end Layers

namespace WordChain

inductive Chains : WordChain → ImportChain → Prop
  | root {t : IndexedTable} {length : Nat} (slots : t.slots.length ≤ Sid.last) (room : length < Sid.last) :
      Chains (.root (.of t) (.ofNat length)) (.layer .nothing t length)
  | above {below : WordChain} {chain : ImportChain} {t : IndexedTable} {length : Nat}
      (chains : below.Chains chain) (slots : t.slots.length ≤ Sid.last) (room : chain.maxId + length < Sid.last) :
      Chains (.above below (.of t) (.ofNat (chain.maxId + 1)) (.ofNat length)) (.layer chain t length)

namespace Chains

variable {c : WordChain} {chain : ImportChain}

theorem room (chains : c.Chains chain) : chain.maxId < Sid.last := by
  cases chains with
  | root slots room => simpa [ImportChain.maxId] using room
  | above chains slots room => exact room

theorem maxId (chains : c.Chains chain) : c.maxId = .ok (.ofNat chain.maxId) := by
  cases chains with
  | @root t length slots room => exact layerMaxIdFits (by omega : 0 + length < Sid.last)
  | above chains slots room => exact layerMaxIdFits room

theorem find (chains : c.Chains chain) (text : String) : c.find text = .ok ((chain.find? text).map .ofNat) := by
  induction chains with
  | @root t length slots room =>
    have found := WordTable.findFits slots (by omega : 0 + length < Sid.last) text
    refine found.trans (congrArg Except.ok ?_)
    rw [ImportChain.find?, ImportChain.find?, Option.map_map]
    rfl
  | @above below chain t length chains slots room ih =>
    rw [WordChain.find, ih, ImportChain.find?]
    cases chain.find? text with
    | some sid => rfl
    | none =>
      refine (WordTable.findFits slots room text).trans (congrArg Except.ok ?_)
      rw [Option.map_map]
      rfl

theorem text (chains : c.Chains chain) {sid : Nat} (fits : sid ≤ Sid.last) :
    c.text (.ofNat sid) = .ok (chain.text? sid) := by
  induction chains with
  | @root t length slots room =>
    have first : UInt32.ofNat sid < 1 ↔ sid < 1 := ltFits fits (b := 1) (by decide)
    -- on numbers the lowest layer has one below it that owns nothing
    have nothing : sid ≤ ImportChain.nothing.maxId ↔ sid < 1 := Nat.lt_succ_iff.symm
    rw [WordChain.text, ImportChain.text?]
    by_cases before : sid < 1
    · rw [if_pos (first.mpr before), if_pos (nothing.mpr before)]
      rfl
    · rw [if_neg (mt first.mp before), if_neg (mt nothing.mp before)]
      exact layerTextFits (by omega : 0 + length < Sid.last) fits (by omega)
  | @above below chain t length chains slots room ih =>
    have first := ltFits (b := chain.maxId + 1) fits (by omega)
    rw [WordChain.text, ImportChain.text?]
    by_cases before : sid ≤ chain.maxId
    · rw [if_pos (first.mpr (by omega)), if_pos before]
      exact ih
    · rw [if_neg (mt first.mp (by omega)), if_neg before]
      exact layerTextFits room fits (by omega)

theorem checked (chains : c.Chains chain) (t : IndexedTable) {length : Nat} (fits : length ≤ Sid.last) :
    c.checked (.of t) (.ofNat length) =
      .ok (if chain.maxId + 1 + length ≤ Sid.last then
        some (.above c (.of t) (.ofNat (chain.maxId + 1)) (.ofNat length)) else none) := by
  have room := chains.room
  have one : plus? (.ofNat chain.maxId) 1 = some (.ofNat (chain.maxId + 1)) :=
    (plusChecked (b := 1) (by omega) (by decide)).trans (if_pos room)
  have sum := plusChecked (a := chain.maxId + 1) (b := length) room fits
  simp only [WordChain.checked, chains.maxId, bind, Except.bind, one, sum]
  by_cases inside : chain.maxId + 1 + length ≤ Sid.last
  · simp only [if_pos inside]
    rfl
  · simp only [if_neg inside]
    rfl

end Chains

end WordChain

/-- Every table has as many slots and takes as many symbol IDs as a word can count. No other table can be built:
the positions of its texts are words, and its number of symbol IDs is one. -/
def Catalog.Counted (catalog : Catalog) : Prop :=
  ∀ t ∈ catalog.tables, t.slots.length ≤ Sid.last ∧ t.maxId ≤ Sid.last

namespace Catalog.Counted

variable {catalog : Catalog} (counted : catalog.Counted)
include counted

theorem version {name : String} {version : Nat} {t : SharedTable}
    (found : catalog.version? name version = some t) : t.slots.length ≤ Sid.last ∧ t.maxId ≤ Sid.last :=
  counted t (List.mem_of_mem_filter (List.mem_of_find?_eq_some found))

theorem stands {name : String} {version : Nat} {t : SharedTable} (found : catalog.get? name version = some t) :
    t.slots.length ≤ Sid.last := by
  unfold Catalog.get? at found
  split at found
  · rename_i exact_
    cases found
    exact (counted.version exact_).1
  · exact (counted t (List.mem_of_mem_filter (List.mem_of_getLast? found))).1

theorem layer {name : String} {version : Nat} {maxId : Option Nat} (small : ∀ n, maxId = some n → n ≤ Sid.last)
    {l : Layer} (found : ImportEntry.layer catalog name version maxId = .ok l) :
    l.table.slots.length ≤ Sid.last ∧ l.length ≤ Sid.last := by
  unfold ImportEntry.layer at found
  split at found <;> cases found
  · rename_i t length exact_
    exact ⟨(counted.version exact_).1, small length rfl⟩
  · rename_i t exact_
    exact counted.version exact_
  · rename_i length missing
    refine ⟨?_, small length rfl⟩
    cases found : catalog.get? name version with
    | none => exact Nat.zero_le _
    | some t => exact counted.stands found

end Catalog.Counted

theorem ImportEntry.usedSmall {entry : ImportEntry} {name : String} {maxId : Option Nat}
    (used : entry.usedMaxId name = .ok maxId) {n : Nat} (given : maxId = some n) : n ≤ Sid.last := by
  unfold usedMaxId at used
  split at used
  · cases used
    contradiction
  · split at used <;> cases used
    cases given
    omega

namespace WordChain

def Spells (c : WordChain) (i : Imports) : Prop :=
  ∃ chain : ImportChain, c.Chains chain ∧ chain.layers = i.placed

namespace Spells

variable {c : WordChain} {i : Imports}

theorem lastSame {chain : ImportChain} (layers : chain.layers = i.placed) : chain.maxId = i.maxId := by
  rw [chain.layersPlaced.2, layers, Imports.placed, Layer.placeLayers, Imports.maxId]

theorem room (spells : c.Spells i) : i.maxId < Sid.last := by
  obtain ⟨chain, chains, layers⟩ := spells
  exact lastSame layers ▸ chains.room

theorem maxId (spells : c.Spells i) : c.maxId = .ok (.ofNat i.maxId) := by
  obtain ⟨chain, chains, layers⟩ := spells
  exact lastSame layers ▸ chains.maxId

theorem find (spells : c.Spells i) (text : String) : c.find text = .ok ((i.find? text).map .ofNat) := by
  obtain ⟨chain, chains, layers⟩ := spells
  rw [chains.find, chain.findSame, layers, Imports.find?]

theorem text (spells : c.Spells i) {sid : Nat} (fits : sid ≤ Sid.last) :
    c.text (.ofNat sid) = .ok (i.text? sid) := by
  obtain ⟨chain, chains, layers⟩ := spells
  rw [chains.text fits, chain.textSame, layers, Imports.text?]

theorem system : WordChain.system.Spells .system :=
  ⟨.layer .nothing ⟨.system, _, rfl⟩ 9, .root (by decide) (by decide), rfl⟩

theorem checked (spells : c.Spells i) {l : Layer} (slots : l.table.slots.length ≤ Sid.last)
    (fits : l.length ≤ Sid.last) :
    match i.push? l with
    | some i' => ∃ c', c.checked (.of ⟨l.table, _, rfl⟩) (.ofNat l.length) = .ok (some c') ∧ c'.Spells i'
    | none => c.checked (.of ⟨l.table, _, rfl⟩) (.ofNat l.length) = .ok none := by
  obtain ⟨chain, chains, layers⟩ := spells
  have last := lastSame layers
  rw [chains.checked _ fits, Imports.push?, ← last]
  by_cases inside : chain.maxId + 1 + l.length ≤ Sid.last
  · rw [if_pos inside, if_pos inside]
    refine ⟨_, rfl, _, .above chains slots (by omega), ?_⟩
    have pushed : (i.push l).placed = Layer.place 1 (i.layers ++ [l]) := rfl
    rw [ImportChain.layers, layers, pushed, Layer.placeAppend, last, Nat.add_comm]
    rfl
  · rw [if_neg inside, if_neg inside]

theorem addTo {catalog : Catalog} (counted : catalog.Counted) (spells : c.Spells i) (entry : ImportEntry) :
    match entry.addTo catalog i with
    | .ok i' => ∃ c', WordChain.addTo catalog c entry = .ok c' ∧ c'.Spells i'
    | .error fault => WordChain.addTo catalog c entry = .error (.refused fault) := by
  have passed {β : Type} (b : β) : (Except.ok b).mapError WordStop.refused = .ok b := rfl
  unfold ImportEntry.addTo WordChain.addTo
  cases entry.name with
  | none => exact ⟨c, rfl, spells⟩
  | some name =>
    dsimp only
    by_cases skipped : name = "" ∨ name = "$ion"
    · rw [if_pos skipped, if_pos skipped]
      exact ⟨c, rfl, spells⟩
    rw [if_neg skipped, if_neg skipped]
    cases used : entry.usedMaxId name with
    | error fault => rfl
    | ok maxId =>
      cases asked : ImportEntry.layer catalog name entry.usedVersion maxId with
      | error fault =>
        simp only [asked, passed, bind, Except.bind]
        rfl
      | ok l =>
        obtain ⟨slots, fits⟩ := counted.layer (fun n some => ImportEntry.usedSmall used some) asked
        have checked := spells.checked slots fits
        simp only [asked, passed, bind, Except.bind]
        cases pushed : i.push? l with
        | none =>
          rw [pushed] at checked
          rw [checked]
          rfl
        | some i' =>
          rw [pushed] at checked
          obtain ⟨c', here, spells'⟩ := checked
          rw [here]
          exact ⟨c', rfl, spells'⟩

theorem addAll {catalog : Catalog} (counted : catalog.Counted) (spells : c.Spells i)
    (entries : List ImportEntry) :
    match entries.foldlM (ImportEntry.addTo catalog) i with
    | .ok i' => ∃ c', entries.foldlM (WordChain.addTo catalog) c = .ok c' ∧ c'.Spells i'
    | .error fault => entries.foldlM (WordChain.addTo catalog) c = .error (.refused fault) := by
  induction entries generalizing c i with
  | nil => exact ⟨c, rfl, spells⟩
  | cons entry rest ih =>
    have first := spells.addTo counted entry
    rw [List.foldlM_cons, List.foldlM_cons]
    cases added : entry.addTo catalog i with
    | error fault =>
      rw [added] at first
      simp only [first, bind, Except.bind]
    | ok i' =>
      rw [added] at first
      obtain ⟨c', here, spells'⟩ := first
      simp only [here, bind, Except.bind]
      exact ih spells'

end Spells

end WordChain

structure WordSymbols.Spells (w : WordSymbols) (t : SymbolTable) : Prop where
  imports : w.imports.Spells t.imports
  locals : w.locals = t.locals
  lookup text : w.lookup[text]? = ((t.locals.idxOf? (some text)).map (t.firstLocal + ·)).map UInt32.ofNat
  room : t.maxId ≤ Sid.last

namespace WordSymbols.Spells

variable {w : WordSymbols} {t : SymbolTable}

theorem firstLocal (spells : w.Spells t) : w.firstLocal = .ok (.ofNat t.firstLocal) := by
  rw [WordSymbols.firstLocal, spells.imports.maxId]
  exact plusOne spells.imports.room

theorem maxId (spells : w.Spells t) : w.maxId = .ok (.ofNat t.maxId) := by
  rw [WordSymbols.maxId, spells.imports.maxId, spells.locals]
  exact plusFits spells.room

theorem find (spells : w.Spells t) (text : String) : w.find text = .ok ((t.find? text).map .ofNat) := by
  simp only [WordSymbols.find, spells.imports.find, bind, Except.bind, SymbolTable.find?, spells.lookup]
  cases t.imports.find? text <;> rfl

theorem text (spells : w.Spells t) {sid : Nat} (fits : sid ≤ Sid.last) :
    w.text (.ofNat sid) = .ok (t.text? sid) := by
  have room := spells.imports.room
  simp only [WordSymbols.text, spells.imports.maxId, bind, Except.bind, leFits fits (Nat.le_of_lt room),
    SymbolTable.text?]
  by_cases imported : sid ≤ t.imports.maxId
  · rw [if_pos imported, if_pos imported]
    exact spells.imports.text fits
  · have place := minusFits (a := sid) (b := t.firstLocal) (by unfold SymbolTable.firstLocal; omega) fits
    have small : sid - t.firstLocal ≤ Sid.last := by omega
    rw [if_neg imported, if_neg imported, spells.firstLocal]
    dsimp only
    rw [place]
    dsimp only
    rw [toNatOf small, spells.locals]
    rfl

theorem push (spells : w.Spells t) (room : t.maxId < Sid.last) (slot : Option String) :
    ∃ w', w.pushLocal slot = .ok (.ofNat (t.maxId + 1), w') ∧ w'.Spells (t.pushLocal slot).2 := by
  have sid := plusOne room
  refine ⟨_, by simp only [pushLocal, spells.maxId, bind, Except.bind, sid]; rfl, ?_⟩
  refine ⟨spells.imports, congrArg (· ++ [slot]) spells.locals, fun text => ?_, ?_⟩
  · have behind : t.firstLocal + t.locals.length = t.maxId + 1 := by
      unfold SymbolTable.firstLocal SymbolTable.maxId
      omega
    -- the new ID is behind all others, so a text that has one keeps it
    have first : (t.pushLocal slot).2.firstLocal = t.firstLocal := rfl
    rw [first, SymbolTable.pushLocal, List.idxOf?, List.findIdx?_append, ← List.idxOf?, Option.map_or,
      Option.map_or, ← spells.lookup]
    cases slot with
    | none => simp
    | some key =>
      dsimp only
      rw [TextIndex.insertedNew]
      by_cases same : key = text <;> simp [same, behind]
  · simp only [SymbolTable.maxId, SymbolTable.pushLocal, List.length_append, List.length_singleton] at room ⊢
    omega

theorem pushAll (spells : w.Spells t) (added : List (Option String))
    (room : t.maxId + added.length ≤ Sid.last) :
    ∃ w', added.foldlM (fun w slot => do return (← w.pushLocal slot).2) w = .ok w' ∧
      w'.Spells { t with locals := t.locals ++ added } := by
  induction added generalizing w t with
  | nil => exact ⟨w, rfl, by simpa using spells⟩
  | cons slot rest ih =>
    rw [List.length_cons] at room
    obtain ⟨w', here, spells'⟩ := spells.push (by omega) slot
    obtain ⟨last, later, spells''⟩ := ih spells' (by
      simp only [SymbolTable.maxId, SymbolTable.pushLocal, List.length_append, List.length_singleton] at room ⊢
      omega)
    refine ⟨last, ?_, ?_⟩
    · rw [List.foldlM_cons, here]
      exact later
    · rw [SymbolTable.pushLocal, List.append_assoc] at spells''
      exact spells''

theorem extend (spells : w.Spells t) (added : List (Option String)) :
    if t.maxId + added.length ≤ Sid.last then
      ∃ w', w.extend added = .ok w' ∧ w'.Spells { t with locals := t.locals ++ added }
    else w.extend added = .error (.refused (.localRange added.length t.maxId)) := by
  have base := toNatOf spells.room
  have fits : added.length ≤ Sid.last ∧ (plus? (.ofNat t.maxId) (.ofNat added.length)).isSome ↔
      t.maxId + added.length ≤ Sid.last := by
    constructor
    · rintro ⟨few, sum⟩
      rw [plusChecked spells.room few] at sum
      by_contra beyond
      simp [if_neg beyond] at sum
    · intro room
      have few : added.length ≤ Sid.last := by omega
      rw [plusChecked spells.room few, if_pos room]
      exact ⟨few, rfl⟩
  simp only [WordSymbols.extend, spells.maxId, bind, Except.bind, fits]
  by_cases room : t.maxId + added.length ≤ Sid.last
  · rw [if_pos room, if_pos room]
    exact spells.pushAll added room
  · rw [if_neg room, if_neg room, base]
    rfl

theorem ofImports {c : WordChain} {i : Imports} (spells : c.Spells i) :
    (WordSymbols.ofImports c).Spells (.ofImports i) :=
  ⟨spells, rfl, fun _ => Std.HashMap.getElem?_empty, Nat.le_of_lt spells.room⟩

theorem install {catalog : Catalog} (counted : catalog.Counted) (spells : w.Spells t) (entry : TableEntry) :
    match entry.install catalog t with
    | .ok t' => ∃ w', w.install catalog entry = .ok w' ∧ w'.Spells t'
    | .error fault => w.install catalog entry = .error (.refused fault) := by
  have put {w : WordSymbols} {base : SymbolTable} (spells : w.Spells base) :
      match (if base.maxId + entry.symbols.length ≤ Sid.last then
        .ok { base with locals := base.locals ++ entry.symbols }
        else .error (.localRange entry.symbols.length base.maxId) : Except TableFault SymbolTable) with
      | .ok t' => ∃ w', w.extend entry.symbols = .ok w' ∧ w'.Spells t'
      | .error fault => w.extend entry.symbols = .error (.refused fault) := by
    have extended := spells.extend entry.symbols
    by_cases room : base.maxId + entry.symbols.length ≤ Sid.last
    · rw [if_pos room] at extended ⊢
      exact extended
    · rw [if_neg room] at extended ⊢
      exact extended
  unfold TableEntry.install WordSymbols.install TableEntry.base
  cases append : entry.append with
  | true => exact put spells
  | false =>
    have resolved := WordChain.Spells.system.addAll counted entry.imports
    simp only [Bool.false_eq_true, if_false, bind, Except.bind]
    cases chain : entry.imports.foldlM (ImportEntry.addTo catalog) .system with
    | error fault =>
      rw [chain] at resolved
      rw [resolved]
      rfl
    | ok i =>
      rw [chain] at resolved
      obtain ⟨c, here, spells'⟩ := resolved
      rw [here]
      exact put (ofImports spells')

end WordSymbols.Spells

end Ion
