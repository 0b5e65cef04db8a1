import Mathlib.Order.Bounds.Defs
import Ion.Proofs.WordSymbols

/-! Runs of calls on symbol tables in words. A run goes on until a call needs a symbol ID behind the greatest
one, and there it overflows. What has run took no text from an ID and no ID from a text, and lookups in what it
left are exact. -/
namespace Ion

open Word

namespace WordChain

variable {c c' : WordChain} {chain : ImportChain} {i : Imports} {t : IndexedTable} {length last : UInt32}

def declared (table : IndexedTable × UInt32) : Layer := ⟨table.1.toSharedTable, table.2.toNat⟩

theorem layerMaxIdWithin {first : Nat} (room : first < Sid.last)
    (ok : layerMaxId (.ofNat (first + 1)) length = .ok last) : first + length.toNat < Sid.last := by
  obtain ⟨sum, added, -⟩ := exceptOk ok
  by_contra beyond
  have few : length.toNat ≤ Sid.last := Nat.le_of_lt_succ length.toNat_lt
  have checked := plusChecked (a := first + 1) room few
  rw [UInt32.ofNat_toNat, if_neg (by omega)] at checked
  rw [plus, checked] at added
  contradiction

theorem Spells.pushed (spells : c.Spells i) (slots : t.slots.length ≤ Sid.last)
    (pushed : c.push (.of t) length = .ok c') (range : c'.maxId = .ok last) :
    c'.Spells (i.push (declared (t, length))) := by
  obtain ⟨chain, chains, layers⟩ := spells
  have sum := plusOne chains.room
  simp only [push, chains.maxId, bind, Except.bind, sum, pure, Except.pure, Except.ok.injEq] at pushed
  subst pushed
  have room := layerMaxIdWithin chains.room range
  have whole := Chains.above chains slots room
  rw [UInt32.ofNat_toNat] at whole
  refine ⟨_, whole, ?_⟩
  have placed : (i.push (declared (t, length))).placed = Layer.place 1 (i.layers ++ [declared (t, length)]) := rfl
  rw [ImportChain.layers, layers, placed, Layer.placeAppend, Spells.lastSame layers, Nat.add_comm]
  rfl

theorem pushAsks {below : WordChain} {table : WordTable} (pushed : below.push table length = .ok c) :
    ∃ last, below.maxId = .ok last := by
  obtain ⟨last, asked, -⟩ := exceptOk pushed
  exact ⟨last, asked⟩

theorem Spells.pushedAll {tables : List (IndexedTable × UInt32)} (spells : c.Spells i)
    (counted : ∀ table ∈ tables, table.1.slots.length ≤ Sid.last)
    (built : tables.foldlM (fun chain table => chain.push (.of table.1) table.2) c = .ok c')
    (range : c'.maxId = .ok last) : c'.Spells ⟨i.added ++ tables.map declared⟩ := by
  induction tables generalizing c i with
  | nil =>
    cases built
    rwa [List.map_nil, List.append_nil]
  | cons table rest ih =>
    obtain ⟨middle, first, later⟩ := exceptOk built
    -- the next layer asks for the end of this one, and so does the question at the end
    have asked : ∃ last, middle.maxId = .ok last := by
      cases rest with
      | nil =>
        cases later
        exact ⟨last, range⟩
      | cons next others =>
        obtain ⟨_, pushed, -⟩ := exceptOk later
        exact pushAsks pushed
    obtain ⟨_, asked⟩ := asked
    have spells := spells.pushed (counted table (.head _)) first asked
    have all := ih spells (fun other mem => counted other (.tail _ mem)) later
    rwa [Imports.push, List.append_assoc] at all

theorem buildSpells {tables : List (IndexedTable × UInt32)}
    (counted : ∀ table ∈ tables, table.1.slots.length ≤ Sid.last) (built : build tables = .ok c)
    (range : c.maxId = .ok last) : c.Spells ⟨tables.map declared⟩ :=
  Spells.system.pushedAll counted built range

def range (l : UInt32 × WordTable × UInt32) : Nat × Nat := (l.1.toNat, l.2.2.toNat)

theorem Chains.ranges (chains : c.Chains chain) : c.layers.map range = chain.layers.map Layer.range := by
  induction chains with
  | @root t length slots room => simp [layers, ImportChain.layers, ImportChain.maxId, range, Layer.range,
      toNatOf (Nat.le_of_lt room)]
  | @above below chain t length chains slots room ih =>
    have first := toNatOf (a := chain.maxId + 1) chains.room
    have few : length ≤ Sid.last := by omega
    rw [layers, ImportChain.layers, List.map_append, List.map_append, ih]
    simp only [List.map_cons, List.map_nil, range, Layer.range, first, toNatOf few]

theorem Spells.partition (spells : c.Spells i) (range : c.maxId = .ok last) :
    Layer.Partition (c.layers.map WordChain.range) last.toNat := by
  obtain ⟨chain, chains, -⟩ := spells
  have ends := chains.maxId
  rw [range, Except.ok.injEq] at ends
  rw [chains.ranges, ends, toNatOf (Nat.le_of_lt chains.room)]
  exact chain.partition

theorem Chains.layer (chains : c.Chains chain) {l : UInt32 × WordTable × UInt32} (mem : l ∈ c.layers) :
    ∃ p ∈ chain.layers, p.1 = l.1.toNat ∧ p.2.length = l.2.2.toNat ∧ p.2.table.slots = l.2.1.slots := by
  induction chains with
  | @root t length slots room =>
    rw [layers, List.mem_singleton] at mem
    subst mem
    exact ⟨(1, ⟨t.toSharedTable, length⟩), .head _, rfl, (toNatOf (Nat.le_of_lt room)).symm, rfl⟩
  | @above below chain t length chains slots room ih =>
    rw [ImportChain.layers]
    rcases List.mem_append.mp mem with lower | top
    · obtain ⟨p, here, same⟩ := ih lower
      exact ⟨p, List.mem_append_left _ here, same⟩
    · rw [List.mem_singleton] at top
      subst top
      have few : length ≤ Sid.last := by omega
      exact ⟨(chain.maxId + 1, ⟨t.toSharedTable, length⟩), List.mem_append_right _ (.head _),
        (toNatOf chains.room).symm, (toNatOf few).symm, rfl⟩

end WordChain

namespace WordSymbols

def perform (w : WordSymbols) : SymbolCall → Except WordStop (UInt32 × WordSymbols)
  | .intern text => w.intern text
  | .push text => w.pushLocal text

def run (w : WordSymbols) : List SymbolCall → Except WordStop (List UInt32 × WordSymbols)
  | [] => .ok ([], w)
  | call :: rest => do
    let (sid, w) ← w.perform call
    let (sids, w) ← w.run rest
    return (sid :: sids, w)

def Adds (w : WordSymbols) : SymbolCall → Prop
  | .intern text => w.find text = .ok none
  | .push _ => True

def Exhausts (w : WordSymbols) (calls : List SymbolCall) : Prop :=
  ∃ front call rest sids w', calls = front ++ call :: rest ∧ w.run front = .ok (sids, w') ∧
    w'.maxId = .ok (.ofNat Sid.last) ∧ w'.Adds call

variable {w w' : WordSymbols} {t t' : SymbolTable} {text : String} {sid : UInt32}

theorem pushImports {slot : Option String} (pushed : w.pushLocal slot = .ok (sid, w')) :
    w'.imports = w.imports := by
  obtain ⟨last, asked, rest⟩ := exceptOk pushed
  obtain ⟨sum, added, ⟨⟩⟩ := exceptOk rest
  rfl

theorem performImports {call : SymbolCall} (performed : w.perform call = .ok (sid, w')) :
    w'.imports = w.imports := by
  cases call with
  | push slot => exact pushImports performed
  | intern text =>
    obtain ⟨found, asked, rest⟩ := exceptOk performed
    cases found with
    | some known =>
      cases rest
      rfl
    | none => exact pushImports rest

theorem runImports {calls : List SymbolCall} {sids : List UInt32} (ran : w.run calls = .ok (sids, w')) :
    w'.imports = w.imports := by
  induction calls generalizing w sids with
  | nil =>
    cases ran
    rfl
  | cons call rest ih =>
    obtain ⟨⟨sid, w1⟩, first, ran⟩ := exceptOk ran
    obtain ⟨⟨more, w2⟩, later, ⟨⟩⟩ := exceptOk ran
    exact (ih later).trans (performImports first)

namespace Spells

theorem pushFull (spells : w.Spells t) (full : t.maxId = Sid.last) (slot : Option String) :
    w.pushLocal slot = .error .overflow := by
  have sum : plus (.ofNat t.maxId) 1 = .error .overflow := by
    rw [full]
    rfl
  simp only [pushLocal, spells.maxId, bind, Except.bind, sum]

theorem pushes (spells : w.Spells t) (slot : Option String) :
    if (t.pushLocal slot).2.maxId ≤ Sid.last then
      ∃ w', w.pushLocal slot = .ok (.ofNat (t.pushLocal slot).1, w') ∧ w'.Spells (t.pushLocal slot).2
    else w.pushLocal slot = .error .overflow ∧ t.maxId = Sid.last := by
  have more : (t.pushLocal slot).2.maxId = t.maxId + 1 := by
    simp only [SymbolTable.pushLocal, SymbolTable.maxId, List.length_append, List.length_singleton,
      Nat.add_assoc]
  have room := spells.room
  rw [more]
  by_cases fits : t.maxId + 1 ≤ Sid.last
  · rw [if_pos fits]
    exact spells.push fits slot
  · have full : t.maxId = Sid.last := by omega
    rw [if_neg fits]
    exact ⟨spells.pushFull full slot, full⟩

theorem performs (spells : w.Spells t) (call : SymbolCall) :
    if (t.perform call).2.maxId ≤ Sid.last then
      ∃ w', w.perform call = .ok (.ofNat (t.perform call).1, w') ∧ w'.Spells (t.perform call).2
    else w.perform call = .error .overflow ∧ t.maxId = Sid.last ∧ w.Adds call := by
  cases call with
  | push slot =>
    have pushed := spells.pushes slot
    split at pushed <;> rename_i fits
    · exact if_pos fits ▸ pushed
    · exact if_neg fits ▸ ⟨pushed.1, pushed.2, trivial⟩
  | intern text =>
    have asked := spells.find text
    simp only [perform, WordSymbols.intern, asked, bind, Except.bind, SymbolTable.perform, SymbolTable.intern]
    cases found : t.find? text with
    | some sid => exact if_pos spells.room ▸ ⟨w, rfl, spells⟩
    | none =>
      rw [found] at asked
      have pushed := spells.pushes (some text)
      split at pushed <;> rename_i fits
      · exact if_pos fits ▸ pushed
      · exact if_neg fits ▸ ⟨pushed.1, pushed.2, asked⟩

theorem runs (spells : w.Spells t) (calls : List SymbolCall) :
    if (t.after calls).maxId ≤ Sid.last then
      ∃ w', w.run calls = .ok ((t.answers calls).map .ofNat, w') ∧ w'.Spells (t.after calls)
    else w.run calls = .error .overflow ∧ w.Exhausts calls := by
  induction calls generalizing w t with
  | nil => exact if_pos spells.room ▸ ⟨w, rfl, spells⟩
  | cons call rest ih =>
    have first := spells.performs call
    have all : t.after (call :: rest) = (t.perform call).2.after rest := rfl
    rw [all]
    by_cases fits : (t.perform call).2.maxId ≤ Sid.last
    · rw [if_pos fits] at first
      obtain ⟨w1, here, spells1⟩ := first
      have later := ih spells1
      by_cases allFit : ((t.perform call).2.after rest).maxId ≤ Sid.last
      · rw [if_pos allFit] at later ⊢
        obtain ⟨w2, ran, spells2⟩ := later
        exact ⟨w2, by simp only [run, here, bind, Except.bind, ran]; rfl, spells2⟩
      · rw [if_neg allFit] at later ⊢
        obtain ⟨stops, front, last, behind, sids, w2, rfl, ran, full, adds⟩ := later
        refine ⟨by simp only [run, here, bind, Except.bind, stops], call :: front, last, behind,
          .ofNat (t.perform call).1 :: sids, w2, rfl, ?_, full, adds⟩
        simp only [run, here, bind, Except.bind, ran]
        rfl
    · rw [if_neg fits] at first
      obtain ⟨stops, full, adds⟩ := first
      have grown := ((t.perform call).2.afterExtends rest).maxId
      rw [if_neg (by omega)]
      exact ⟨by simp only [run, stops, bind, Except.bind], [], call, rest, [], w, rfl, rfl,
        full ▸ spells.maxId, adds⟩

theorem ran (spells : w.Spells t) {calls : List SymbolCall} {sids : List UInt32}
    (ran : w.run calls = .ok (sids, w')) :
    sids = (t.answers calls).map .ofNat ∧ w'.Spells (t.after calls) := by
  have runs := spells.runs calls
  split at runs
  · obtain ⟨u, again, spells'⟩ := runs
    rw [ran, Except.ok.injEq, Prod.mk.injEq] at again
    obtain ⟨rfl, rfl⟩ := again
    exact ⟨rfl, spells'⟩
  · rw [ran] at runs
    obtain ⟨stops, -⟩ := runs
    contradiction

theorem runGives (spells : w.Spells t) (calls : List SymbolCall) (sids : List UInt32)
    (fits : (t.after calls).maxId ≤ Sid.last) (answers : (t.answers calls).map .ofNat = sids) :
    ∃ w', w.run calls = .ok (sids, w') ∧ w'.Spells (t.after calls) := by
  have runs := spells.runs calls
  rwa [if_pos fits, answers] at runs

theorem stopped (spells : w.Spells t) {calls : List SymbolCall} {stop : WordStop}
    (stops : w.run calls = .error stop) : stop = .overflow ∧ w.Exhausts calls := by
  have runs := spells.runs calls
  split at runs
  · obtain ⟨u, ran, -⟩ := runs
    rw [stops] at ran
    contradiction
  · rw [stops, Except.error.injEq] at runs
    exact runs

theorem textAt (spells : w.Spells t) {n : Nat} (inside : n ≤ t.maxId) : w.text (.ofNat n) = .ok (t.text? n) :=
  spells.text (inside.trans spells.room)

theorem textOf (spells : w.Spells t) (sid : UInt32) : w.text sid = .ok (t.text? sid.toNat) := by
  have known := spells.text (Nat.le_of_lt_succ sid.toNat_lt)
  rwa [UInt32.ofNat_toNat] at known

theorem textIs (spells : w.Spells t) : w.text sid = .ok (some text) ↔ t.text? sid.toNat = some text := by
  rw [spells.textOf, Except.ok.injEq]

theorem findIs (spells : w.Spells t) : w.find text = .ok (some sid) ↔ t.find? text = some sid.toNat := by
  rw [spells.find, Except.ok.injEq, Option.map_eq_some_iff]
  constructor
  · rintro ⟨n, found, rfl⟩
    have fits := (SymbolTable.textBound (SymbolTable.findText found)).trans spells.room
    rw [toNatOf fits, found]
  · exact fun found => ⟨_, found, UInt32.ofNat_toNat⟩

theorem indexed (spells : w.Spells t) : ∃ u : IndexedSymbols, u.Same t ∧ w.imports.Chains u.imports := by
  obtain ⟨chain, chains, layers⟩ := spells.imports
  exact ⟨⟨chain, t.locals, TextIndex.noteAll ∅ (chain.maxId + 1) t.locals⟩, ⟨layers, rfl, rfl⟩,
    chains⟩

theorem foundLeast (spells : w.Spells t) :
    w.find text = .ok (some sid) ↔ IsLeast {n | w.text n = .ok (some text)} sid := by
  obtain ⟨u, same, -⟩ := spells.indexed
  constructor
  · intro found
    have here := spells.findIs.mp found
    refine ⟨spells.textIs.mpr (SymbolTable.findText here), fun other known => ?_⟩
    have known := spells.textIs.mp known
    rw [← same.text] at known
    obtain ⟨n, least, again⟩ := same.indexed.textFound known
    rw [same.find, here, Option.some.injEq] at again
    exact UInt32.le_iff_toNat_le.mpr (again ▸ least)
  · rintro ⟨known, least⟩
    have known := spells.textIs.mp known
    rw [← same.text] at known
    obtain ⟨n, before, found⟩ := same.indexed.textFound known
    have fits : (UInt32.ofNat n).toNat = n := toNatOf (before.trans (Nat.le_of_lt_succ sid.toNat_lt))
    have lower : UInt32.ofNat n ≤ sid := UInt32.le_iff_toNat_le.mpr (fits.symm ▸ before)
    rw [same.find, ← fits] at found
    rw [UInt32.le_antisymm (least (spells.textIs.mpr (SymbolTable.findText found))) lower]
    exact spells.findIs.mpr found

theorem missingUnknown (spells : w.Spells t) :
    w.find text = .ok none ↔ ∀ sid, w.text sid ≠ .ok (some text) := by
  obtain ⟨u, same, -⟩ := spells.indexed
  constructor
  · intro absent sid known
    have known := spells.textIs.mp known
    rw [← same.text] at known
    obtain ⟨n, -, found⟩ := same.indexed.textFound known
    rw [spells.find, ← same.find, found, Option.map_some, Except.ok.injEq] at absent
    contradiction
  · intro unknown
    rw [spells.find]
    cases found : t.find? text with
    | none => rfl
    | some n =>
      have known := SymbolTable.findText found
      exact absurd ((spells.textAt (SymbolTable.textBound known)).trans (congrArg _ known)) (unknown (.ofNat n))

theorem zeroText (spells : w.Spells t) : w.text 0 = .ok none := by
  obtain ⟨u, same, -⟩ := spells.indexed
  have known : u.text? 0 = u.imports.text? 0 := IndexedSymbols.importedText (Nat.zero_le _)
  rw [spells.textOf, ← same.text, UInt32.toNat_zero, known]
  cases known : u.imports.text? 0 with
  | none => rfl
  | some text => exact absurd (ImportChain.textInside known).1 (by decide)

theorem textBehind (spells : w.Spells t) {last : UInt32} (ends : w.maxId = .ok last) (behind : last < sid) :
    w.text sid = .ok none := by
  rw [spells.maxId, Except.ok.injEq] at ends
  rw [← ends, UInt32.lt_iff_toNat_lt, toNatOf spells.room] at behind
  rw [spells.textOf]
  cases known : t.text? sid.toNat with
  | none => rfl
  | some text => exact absurd (SymbolTable.textBound known) (Nat.not_le_of_lt behind)

theorem slotText (spells : w.Spells t) {l : UInt32 × WordTable × UInt32} (mem : l ∈ w.imports.layers) {n : Nat}
    (inside : n < l.2.2.toNat) : w.text (l.1 + .ofNat n) = .ok l.2.1.slots[n]?.join := by
  obtain ⟨u, same, chains⟩ := spells.indexed
  obtain ⟨p, here, start, length, slots⟩ := chains.layer mem
  obtain ⟨imported, known⟩ := ImportChain.layerText here (length ▸ inside)
  have below : p.1 + n ≤ t.maxId := by
    rw [← same.maxId.1]
    exact imported.trans (Nat.le_add_right _ _)
  have place := spells.textAt below
  rw [UInt32.ofNat_add, start, UInt32.ofNat_toNat] at place
  rw [place, ← start, ← same.text, IndexedSymbols.importedText imported, known, slots]

theorem localText (spells : w.Spells t) {first : UInt32} (starts : w.firstLocal = .ok first) {n : Nat}
    (inside : n < w.locals.length) : w.text (first + .ofNat n) = .ok w.locals[n]?.join := by
  obtain ⟨u, same, -⟩ := spells.indexed
  rw [spells.firstLocal, Except.ok.injEq] at starts
  rw [spells.locals] at inside ⊢
  have below : t.firstLocal + n ≤ t.maxId := by
    unfold SymbolTable.firstLocal SymbolTable.maxId
    omega
  rw [← starts, ← UInt32.ofNat_add, spells.textAt below, ← same.text, ← same.maxId.2, u.ownText, same.locals]

end Spells

structure LooksUp (w : WordSymbols) : Prop where
  answers text : ∃ sid, w.find text = .ok sid
  shows sid : ∃ text, w.text sid = .ok text
  found text sid : w.find text = .ok (some sid) ↔ IsLeast {n | w.text n = .ok (some text)} sid
  missing text : w.find text = .ok none ↔ ∀ sid, w.text sid ≠ .ok (some text)
  zero : w.text 0 = .ok none
  above : ∀ last sid, w.maxId = .ok last → last < sid → w.text sid = .ok none
  imported : ∀ l ∈ w.imports.layers, ∀ n < l.2.2.toNat, w.text (l.1 + .ofNat n) = .ok l.2.1.slots[n]?.join
  own : ∀ first, w.firstLocal = .ok first → ∀ n < w.locals.length,
    w.text (first + .ofNat n) = .ok w.locals[n]?.join

theorem Spells.looksUp (spells : w.Spells t) : w.LooksUp where
  answers text := ⟨_, spells.find text⟩
  shows sid := ⟨_, spells.textOf sid⟩
  found _ _ := spells.foundLeast
  missing _ := spells.missingUnknown
  zero := spells.zeroText
  above _ _ := spells.textBehind
  imported _ mem _ := spells.slotText mem
  own _ starts _ := spells.localText starts

section Chain

variable {tables : List (IndexedTable × UInt32)} {chain : WordChain} {last : UInt32}

/-- The layers of a chain part its symbol IDs. Over it, a run of calls leaves a table that looks up exactly,
unless one of them needs a symbol ID behind the greatest. -/
theorem lookupsExact (counted : ∀ table ∈ tables, table.1.slots.length ≤ Sid.last)
    (built : WordChain.build tables = .ok chain) (range : chain.maxId = .ok last) (calls : List SymbolCall) :
    Layer.Partition (chain.layers.map WordChain.range) last.toNat ∧
      match (ofImports chain).run calls with
      | .ok (_, w) => w.imports = chain ∧ w.LooksUp
      | .error stop => stop = .overflow ∧ (ofImports chain).Exhausts calls := by
  have imports := WordChain.buildSpells counted built range
  have spells := Spells.ofImports imports
  refine ⟨imports.partition range, ?_⟩
  cases ran : (ofImports chain).run calls with
  | ok found => exact ⟨runImports ran, (spells.ran ran).2.looksUp⟩
  | error stop => exact spells.stopped ran

theorem lookupsThroughLayers :
    let tables : List (IndexedTable × UInt32) :=
      [(.ofSlots "short" 1 [some "dup", none, some "name", some "dup", some "cut"], 4),
        (.placeholder "missing" 2 3, 3), (.ofSlots "long" 1 [some "dup", some "x"], 5)]
    let calls := [.push none, .intern "x", .push (some "dup"), .intern "new", .push (some "new")]
    ∃ chain w, WordChain.build tables = .ok chain ∧
      (ofImports chain).run calls = .ok ([22, 18, 23, 24, 25], w) ∧
      IsLeast {n | w.text n = .ok (some "dup")} 10 ∧ IsLeast {n | w.text n = .ok (some "name")} 4 ∧
      IsLeast {n | w.text n = .ok (some "new")} 24 ∧ (∀ n, w.text n ≠ .ok (some "cut")) ∧
      w.text 15 = .ok none := by
  intro tables calls
  have counted : ∀ table ∈ tables, table.1.slots.length ≤ Sid.last := by
    simp [tables, IndexedTable.ofSlots, IndexedTable.placeholder, Sid.last]
  obtain ⟨chain, built, range⟩ : ∃ chain, WordChain.build tables = .ok chain ∧ chain.maxId = .ok 21 :=
    ⟨_, rfl, rfl⟩
  have imports := Spells.ofImports (WordChain.buildSpells counted built range)
  obtain ⟨w, ran, spells⟩ := imports.runGives calls [22, 18, 23, 24, 25] (by decide +kernel) (by decide +kernel)
  have looksUp := (lookupsExact counted built range calls).2
  rw [ran] at looksUp
  obtain ⟨-, looksUp⟩ := looksUp
  refine ⟨chain, w, built, ran, (looksUp.found "dup" 10).mp ?_, (looksUp.found "name" 4).mp ?_,
    (looksUp.found "new" 24).mp ?_, (looksUp.missing "cut").mp ?_, ?_⟩
  · exact spells.findIs.mpr (by decide +kernel)
  · exact spells.findIs.mpr (by decide +kernel)
  · exact spells.findIs.mpr (by decide +kernel)
  · exact (spells.find "cut").trans (by decide +kernel)
  · exact (spells.textOf 15).trans (by decide +kernel)

theorem lastSidRun :
    ∃ chain w, WordChain.build [(.placeholder "p" 1 0xFFFFFFF5, 0xFFFFFFF5)] = .ok chain ∧
      chain.maxId = .ok 0xFFFFFFFE ∧ (ofImports chain).run [.intern "a"] = .ok ([0xFFFFFFFF], w) ∧ w.LooksUp ∧
      w.find "b" = .ok none ∧ w.intern "b" = .error .overflow ∧
      (ofImports chain).run [.intern "a", .intern "b"] = .error .overflow := by
  let tables : List (IndexedTable × UInt32) := [(.placeholder "p" 1 0xFFFFFFF5, 0xFFFFFFF5)]
  have counted : ∀ table ∈ tables, table.1.slots.length ≤ Sid.last := by
    simp [tables, IndexedTable.placeholder, IndexedTable.ofSlots]
  obtain ⟨chain, built, range⟩ : ∃ chain, WordChain.build tables = .ok chain ∧
    chain.maxId = .ok 0xFFFFFFFE := ⟨_, rfl, rfl⟩
  have imports := Spells.ofImports (WordChain.buildSpells counted built range)
  obtain ⟨w, ran, spells⟩ := imports.runGives [.intern "a"] [0xFFFFFFFF] (by decide +kernel)
    (by decide +kernel)
  have next := spells.performs (.intern "b")
  rw [if_neg (by decide +kernel)] at next
  have both := imports.runs [.intern "a", .intern "b"]
  rw [if_neg (by decide +kernel)] at both
  exact ⟨chain, w, built, range, ran, spells.looksUp, next.2.2, next.1, both.1⟩

theorem someRunLooksNothingUp :
    ¬∀ chain last, WordChain.build [(.placeholder "p" 1 0xFFFFFFF5, 0xFFFFFFF5)] = .ok chain →
      chain.maxId = .ok last →
        ∀ calls, ∃ sids w, (ofImports chain).run calls = .ok (sids, w) ∧ w.LooksUp := by
  intro every
  obtain ⟨chain, w, built, range, -, -, -, -, stops⟩ := lastSidRun
  obtain ⟨sids, w', both, -⟩ := every chain _ built range [.intern "a", .intern "b"]
  rw [stops] at both
  contradiction

end Chain

structure Names (w : WordSymbols) (text : String) (sid : UInt32) : Prop where
  found : w.find text = .ok (some sid)
  interned : w.intern text = .ok (sid, w)
  means : w.text sid = .ok (some text)

theorem Spells.names (spells : w.Spells t) {n : Nat} (found : t.find? text = some n) :
    w.Names text (.ofNat n) := by
  have here : w.find text = .ok (some (.ofNat n)) := (spells.find text).trans (by rw [found]; rfl)
  have known := SymbolTable.findText found
  refine ⟨here, ?_, (spells.textAt (SymbolTable.textBound known)).trans (congrArg _ known)⟩
  simp only [WordSymbols.intern, here, bind, Except.bind]
  rfl

structure Keeps (w w' : WordSymbols) : Prop where
  texts : ∀ last sid, w.maxId = .ok last → sid ≤ last → w'.text sid = w.text sid
  sids : ∀ text sid, w.find text = .ok (some sid) → w'.Names text sid

theorem Spells.interns (spells : w.Spells t) {u : WordSymbols} (interned : w.intern text = .ok (sid, u)) :
    sid = .ofNat (t.intern text).1 ∧ u.Spells (t.intern text).2 := by
  have performed : w.run [.intern text] = .ok ([sid], u) := by
    simp only [run, perform, interned, bind, Except.bind]
    rfl
  obtain ⟨sids, spells'⟩ := spells.ran performed
  exact ⟨List.singleton_inj.mp sids, spells'⟩

theorem Spells.internKept (spells : w.Spells t) {u : WordSymbols} (interned : w.intern text = .ok (sid, u))
    {calls : List SymbolCall} {sids : List UInt32} (ran : u.run calls = .ok (sids, w')) : w'.Names text sid := by
  obtain ⟨rfl, spells'⟩ := spells.interns interned
  have grown := (t.intern text).2.afterExtends calls
  exact (spells'.ran ran).2.names (grown.findKept (t.internFinds text))

theorem Spells.keeps (spells : w.Spells t) (later : w'.Spells t') (grown : SymbolTable.Extends t t') :
    w.Keeps w' := by
  refine ⟨fun last sid ends inside => ?_, fun text sid found => ?_⟩
  · rw [spells.maxId, Except.ok.injEq] at ends
    rw [← ends, UInt32.le_iff_toNat_le, toNatOf spells.room] at inside
    rw [later.textOf, spells.textOf, grown.textKept inside]
  · have names := later.names (grown.findKept (spells.findIs.mp found))
    rwa [UInt32.ofNat_toNat] at names

end WordSymbols

def WordChain.missing (chain : WordChain) (texts : List String) : List String :=
  (texts.filter fun text => match chain.find text with
    | .ok none => true
    | _ => false).eraseDups

theorem WordChain.Spells.missing {chain : WordChain} {i : Imports} (spells : chain.Spells i)
    (texts : List String) : chain.missing texts = i.missing texts := by
  refine congrArg List.eraseDups (List.filter_congr fun text _ => ?_)
  rw [spells.find]
  cases i.find? text <;> rfl

namespace WordSymbols

structure Numbers (chain : WordChain) (texts : List String) (sids : List UInt32) (w : WordSymbols) : Prop where
  locals : w.locals = (chain.missing texts).map some
  once : w.locals.Nodup
  numbered : ∀ first n text, w.firstLocal = .ok first → (chain.missing texts)[n]? = some text →
    w.find text = .ok (some (first + .ofNat n))
  answered : sids.map (fun sid => .ok (some sid)) = texts.map w.find

variable {w w' : WordSymbols} {tables : List (IndexedTable × UInt32)} {chain : WordChain} {last : UInt32}
  {texts : List String} {sids : List UInt32}

theorem spelledNumbers {i : Imports} (imports : chain.Spells i)
    (ran : (ofImports chain).run (texts.map .intern) = .ok (sids, w)) : Numbers chain texts sids w := by
  obtain ⟨rfl, spells⟩ := (Spells.ofImports imports).ran ran
  have kept := (SymbolTable.ofImports i).answersKept texts
  rw [SymbolTable.internedLocals] at spells kept
  have locals : w.locals = (chain.missing texts).map some := by rw [spells.locals, imports.missing]
  refine ⟨locals, ?_, fun first n text starts at_ => ?_, ?_⟩
  · rw [locals, imports.missing]
    exact (i.missingOnce texts).map fun _ _ => Option.some.inj
  · rw [imports.missing] at at_
    rw [spells.firstLocal, Except.ok.injEq] at starts
    rw [spells.find, SymbolTable.missingFound i texts at_, ← starts, ← UInt32.ofNat_add]
    rfl
  · have known : w.find = fun text =>
        .ok ((SymbolTable.find? ⟨i, (i.missing texts).map some⟩ text).map .ofNat) := funext spells.find
    have answers := congrArg (List.map fun n => Except.ok (ε := WordStop) (Option.map UInt32.ofNat n)) kept
    simp only [List.map_map] at answers ⊢
    rw [known]
    exact answers

/-- A run of calls takes no text from a symbol ID and no symbol ID from a text, and interns alone number the
texts that no layer has from the first local symbol ID on. It stops only where a call needs a symbol ID behind the
greatest. -/
theorem internsStable (counted : ∀ table ∈ tables, table.1.slots.length ≤ Sid.last)
    (built : WordChain.build tables = .ok chain) (range : chain.maxId = .ok last)
    {earlier : List SymbolCall} (reached : (ofImports chain).run earlier = .ok (sids, w))
    (calls : List SymbolCall) :
    (match w.run calls with
      | .ok (_, w') => w.Keeps w'
      | .error stop => stop = .overflow ∧ w.Exhausts calls) ∧
      (∀ text sid u, w.intern text = .ok (sid, u) → match u.run calls with
        | .ok (_, w') => w'.Names text sid
        | .error stop => stop = .overflow ∧ u.Exhausts calls) ∧
      ∀ texts, match (ofImports chain).run (texts.map .intern) with
        | .ok (sids, w') => Numbers chain texts sids w'
        | .error stop => stop = .overflow ∧ (ofImports chain).Exhausts (texts.map .intern) := by
  have imports := WordChain.buildSpells counted built range
  obtain ⟨-, spells⟩ := (Spells.ofImports imports).ran reached
  refine ⟨?_, fun text sid u interned => ?_, fun texts => ?_⟩
  · cases ran : w.run calls with
    | ok found => exact spells.keeps (spells.ran ran).2 (SymbolTable.afterExtends _ calls)
    | error stop => exact spells.stopped ran
  · cases ran : u.run calls with
    | ok found => exact spells.internKept interned ran
    | error stop => exact (spells.interns interned).2.stopped ran
  · cases ran : (ofImports chain).run (texts.map .intern) with
    | ok found => exact spelledNumbers imports ran
    | error stop => exact (Spells.ofImports imports).stopped ran

theorem sharedNamesKept :
    let calls := [.push (some "foo"), .push none, .intern "baz", .push (some "bar")]
    let texts := ["b", "foo", "a", "b", "name"]
    ∃ chain w w' v, WordChain.build [(.ofSlots "s" 1 [some "foo"], 1)] = .ok chain ∧
      (ofImports chain).run [.push none, .intern "bar"] = .ok ([11, 12], w) ∧
      w.run calls = .ok ([13, 14, 15, 16], w') ∧ w'.text 11 = w.text 11 ∧ w'.Names "bar" 12 ∧
      (ofImports chain).run (texts.map .intern) = .ok ([11, 10, 12, 11, 4], v) ∧
      v.locals = [some "b", some "a"] ∧ v.find "a" = .ok (some 12) := by
  intro calls texts
  let tables : List (IndexedTable × UInt32) := [(.ofSlots "s" 1 [some "foo"], 1)]
  have counted : ∀ table ∈ tables, table.1.slots.length ≤ Sid.last := by
    simp [tables, IndexedTable.ofSlots, Sid.last]
  obtain ⟨chain, built, range⟩ : ∃ chain, WordChain.build tables = .ok chain ∧ chain.maxId = .ok 10 :=
    ⟨_, rfl, rfl⟩
  have chains := WordChain.buildSpells counted built range
  have imports := Spells.ofImports chains
  obtain ⟨w, reached, spells⟩ := imports.runGives [.push none, .intern "bar"] [11, 12] (by decide +kernel)
    (by decide +kernel)
  obtain ⟨w', ran, -⟩ := spells.runGives calls [13, 14, 15, 16] (by decide +kernel) (by decide +kernel)
  obtain ⟨v, numbers, ends⟩ := imports.runGives (texts.map .intern) [11, 10, 12, 11, 4]
    (by decide +kernel) (by decide +kernel)
  obtain ⟨keeps, -, numbered⟩ := internsStable counted built range reached calls
  have numbered := numbered texts
  rw [ran] at keeps
  rw [numbers] at numbered
  have missing : chain.missing texts = ["b", "a"] := (chains.missing texts).trans (by decide +kernel)
  have first : v.firstLocal = .ok 11 := ends.firstLocal.trans (by decide +kernel)
  have last : w.maxId = .ok 12 := spells.maxId.trans (by decide +kernel)
  refine ⟨chain, w, w', v, built, reached, ran, keeps.texts 12 11 last (by decide),
    keeps.sids "bar" 12 (spells.findIs.mpr (by decide +kernel)), numbers, ?_, ?_⟩
  · rw [numbered.locals, missing]
    rfl
  · exact numbered.numbered 11 1 "a" first (by rw [missing]; rfl)

theorem secondTextUnnumbered :
    ∃ chain w, WordChain.build [(.placeholder "p" 1 0xFFFFFFF5, 0xFFFFFFF5)] = .ok chain ∧
      (ofImports chain).firstLocal = .ok 0xFFFFFFFF ∧
      (ofImports chain).run [.intern "a"] = .ok ([0xFFFFFFFF], w) ∧ w.find "b" = .ok none ∧
      w.intern "b" = .error .overflow ∧
      ¬∃ sids v, (ofImports chain).run (["a", "b"].map .intern) = .ok (sids, v) ∧
        Numbers chain ["a", "b"] sids v := by
  obtain ⟨chain, w, built, range, ran, -, unknown, stops, both⟩ := lastSidRun
  refine ⟨chain, w, built, ?_, ran, unknown, stops, fun ⟨sids, v, ran', _⟩ => ?_⟩
  · simp only [firstLocal, ofImports, range, bind, Except.bind]
    rfl
  · have ran' : (ofImports chain).run [.intern "a", .intern "b"] = .ok (sids, v) := ran'
    rw [both] at ran'
    contradiction

end WordSymbols

end Ion
