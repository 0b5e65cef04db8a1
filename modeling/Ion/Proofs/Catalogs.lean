import Ion.Proofs.Copying
import Ion.Proofs.Queries

/-! Readers of one datagram with different catalogs. Where every import says how many symbol IDs it takes,
a catalog only gives texts to these IDs: all other symbols, all values and all failures are the same. -/
namespace Ion

def Imports.Parallel (i j : Imports) : Prop := j.added.map Layer.length = i.added.map Layer.length

structure SymbolTable.Parallel (t u : SymbolTable) : Prop where
  imports : t.imports.Parallel u.imports
  locals : u.locals = t.locals

def SymbolTable.imported (t : SymbolTable) (sid : Nat) : Bool :=
  Imports.system.maxId < sid && sid < t.firstLocal

theorem Layer.totalSame {a b : List Layer} (same : b.map length = a.map length) : total b = total a := by
  induction a generalizing b with
  | nil => rw [List.map_eq_nil_iff.mp same]
  | cons l rest ih =>
    cases b with
    | nil => contradiction
    | cons l' rest' =>
      obtain ⟨first, more⟩ := List.cons.inj same
      rw [total, total, first, ih more]

theorem Imports.Parallel.maxId {i j : Imports} (parallel : i.Parallel j) : j.maxId = i.maxId :=
  Layer.totalSame (congrArg ((Layer.whole .system).length :: ·) parallel)

theorem Imports.Parallel.push? {i j : Imports} (parallel : i.Parallel j) {l l' : Layer}
    (length : l'.length = l.length) :
    (i.push? l = none ∧ j.push? l' = none) ∨
      ∃ i' j', i.push? l = some i' ∧ j.push? l' = some j' ∧ i'.Parallel j' := by
  unfold Imports.push?
  rw [parallel.maxId, length]
  split
  · refine .inr ⟨_, _, rfl, rfl, ?_⟩
    rw [Imports.Parallel] at *
    simp [push, parallel, length]
  · exact .inl ⟨rfl, rfl⟩

namespace SymbolTable.Parallel

variable {t u : SymbolTable}

theorem refl (t : SymbolTable) : t.Parallel t := ⟨rfl, rfl⟩

theorem firstLocal (parallel : t.Parallel u) : u.firstLocal = t.firstLocal :=
  congrArg (· + 1) parallel.imports.maxId

theorem maxId (parallel : t.Parallel u) : u.maxId = t.maxId := by
  rw [SymbolTable.maxId, SymbolTable.maxId, parallel.imports.maxId, parallel.locals]

theorem text? (parallel : t.Parallel u) {sid : Nat} (shown : t.imported sid = false) :
    u.text? sid = t.text? sid := by
  by_cases system : sid ≤ Imports.system.maxId
  · have here := t.systemText sid
    have there := u.systemText sid
    rw [if_pos system] at here there
    exact there.symm.trans here
  · have last : ¬sid ≤ t.imports.maxId := by
      simp only [imported, Bool.and_eq_false_iff, decide_eq_false_iff_not] at shown
      rw [SymbolTable.firstLocal] at shown
      omega
    have last' : ¬sid ≤ u.imports.maxId := by rwa [parallel.imports.maxId]
    rw [SymbolTable.text?, SymbolTable.text?, if_neg last, if_neg last', parallel.firstLocal,
      parallel.locals]

end SymbolTable.Parallel

def ImportEntry.Sized (entry : ImportEntry) : Prop :=
  ∀ name, entry.name = some name → name ≠ "" ∧ name ≠ "$ion" → entry.maxId.isSome

def ImportEntry.SizedAll (catalog : Catalog) : Imports → List ImportEntry → Prop
  | _, [] => True
  | i, entry :: rest =>
    entry.Sized ∧ ∀ more, entry.addTo catalog i = .ok more → SizedAll catalog more rest

def SizesImports (catalog : Catalog) (data : Bytes) : Prop :=
  ∀ h : Header, h.FoundIn data none → h.isTable = true → ∀ entry, TableEntry.read h = .ok entry →
    entry.append = false → ImportEntry.SizedAll catalog .system entry.imports

variable (catalog catalog' : Catalog)

theorem ImportEntry.layerSized (name : String) (version length : Nat) :
    ∃ l, layer catalog name version (some length) = .ok l ∧ l.length = length := by
  unfold layer
  cases catalog.version? name version with
  | some table => exact ⟨_, rfl, rfl⟩
  | none => exact ⟨_, rfl, rfl⟩

theorem ImportEntry.addToAgrees {entry : ImportEntry} (sized : entry.Sized) {i j : Imports}
    (parallel : i.Parallel j) :
    Agree Imports.Parallel (entry.addTo catalog i) (entry.addTo catalog' j) := by
  unfold addTo
  cases named : entry.name with
  | none => exact .ok parallel
  | some name =>
    by_cases unused : name = "" ∨ name = "$ion"
    · simp only [if_pos unused]
      exact .ok parallel
    · simp only [if_neg unused, usedMaxId]
      cases size : entry.maxId with
      | none =>
        have declared := sized name named (not_or.mp unused)
        rw [size] at declared
        contradiction
      | some m =>
        by_cases fits : 0 ≤ m.toInt ∧ m.toInt ≤ Sid.last
        · obtain ⟨l, here, length⟩ := layerSized catalog name entry.usedVersion m.toInt.toNat
          obtain ⟨l', there, length'⟩ := layerSized catalog' name entry.usedVersion m.toInt.toNat
          simp only [if_pos fits, bind, Except.bind, here, there]
          obtain ⟨full, full'⟩ | ⟨i', j', pushed, pushed', more⟩ :=
            parallel.push? (length'.trans length.symm)
          · rw [full, full', length, length']
            exact .error _
          · rw [pushed, pushed']
            exact .ok more
        · simp only [if_neg fits]
          exact .error _

theorem ImportEntry.allAgree {entries : List ImportEntry} {i j : Imports}
    (sized : SizedAll catalog i entries) (parallel : i.Parallel j) :
    Agree Imports.Parallel (entries.foldlM (addTo catalog) i) (entries.foldlM (addTo catalog') j) := by
  induction entries generalizing i j with
  | nil => exact .ok parallel
  | cons entry rest ih =>
    rw [List.foldlM_cons, List.foldlM_cons]
    exact (addToAgrees catalog catalog' sized.1 parallel).bind fun i' j' added more =>
      ih (sized.2 i' added) more

theorem SymbolTable.loadAgrees {t u : SymbolTable} (parallel : t.Parallel u) {h : Header}
    (sized : ∀ entry, TableEntry.read h = .ok entry → entry.append = false →
      ImportEntry.SizedAll catalog .system entry.imports) :
    Agree SymbolTable.Parallel (t.load catalog h) (u.load catalog' h) := by
  unfold load
  cases read : TableEntry.read h with
  | error halt => exact .error halt
  | ok entry =>
    have base : Agree SymbolTable.Parallel (entry.base catalog t) (entry.base catalog' u) := by
      unfold TableEntry.base
      cases append : entry.append with
      | true => exact .ok parallel
      | false =>
        have imports := ImportEntry.allAgree catalog catalog' (sized entry read append) rfl
        exact imports.map fun i j parallel => ⟨parallel, rfl⟩
    refine (base.bind fun base base' _ parallel => ?_).mapError _
    rw [parallel.maxId]
    split
    · exact .ok ⟨parallel.imports, congrArg (· ++ entry.symbols) parallel.locals⟩
    · exact .error _

open Scan Grammar

variable {data : Bytes}

theorem nextTopParallel (sized : SizesImports catalog data) {t u : SymbolTable} (parallel : t.Parallel u)
    {c : Cursor} (scanned : Scanned data none c) :
    (nextTop catalog t c).1.Parallel (nextTop catalog' u c).1 ∧
      (nextTop catalog' u c).2 = (nextTop catalog t c).2 := by
  fun_induction nextTop catalog t c generalizing u with
  | case1 t c ended =>
    rw [nextTop, if_pos ended]
    exact ⟨parallel, rfl⟩
  | case2 t c inside e c' scan =>
    rw [nextTopFails inside scan]
    exact ⟨parallel, rfl⟩
  | case3 t c inside c' scan ih =>
    rw [nextTopScanned scan]
    exact ih (.refl _) (.hidden scanned scan TopItem.markerHidden)
  | case4 t c inside c' scan ih =>
    rw [nextTopScanned scan]
    exact ih parallel (.hidden scanned scan TopItem.paddingHidden)
  | case5 t c inside h c' scan table loaded loads ih =>
    have same := SymbolTable.loadAgrees catalog catalog' parallel (sized h ⟨c, c', scanned, scan⟩ table)
    rw [loads] at same
    rw [nextTopScanned scan]
    dsimp only
    rw [if_pos table]
    generalize u.load catalog' h = loading at same ⊢
    cases same with
    | ok more => exact ih more (.behind scanned scan)
  | case6 t c inside h c' scan table halt loads =>
    have same := SymbolTable.loadAgrees catalog catalog' parallel (sized h ⟨c, c', scanned, scan⟩ table)
    rw [loads] at same
    rw [nextTopScanned scan]
    dsimp only
    rw [if_pos table]
    generalize u.load catalog' h = loading at same ⊢
    cases same with
    | error => exact ⟨parallel, rfl⟩
  | case7 t c inside h c' scan table =>
    rw [nextTopScanned scan]
    dsimp only
    rw [if_neg table]
    exact ⟨parallel, rfl⟩

namespace Reader

structure Paired (data : Bytes) (r s : Reader) : Prop where
  first : r.catalog = catalog
  second : s.catalog = catalog'
  inside : s.inside = r.inside
  position : s.position = r.position
  symbols : r.symbols.Parallel s.symbols
  sited : r.Sited data

variable {catalog catalog'} {r s : Reader}

theorem Paired.like (paired : Paired catalog catalog' data r s) : Like r.symbols.imported r s := by
  refine ⟨congrArg List.length paired.inside, ?_, fun sid shown => paired.symbols.text? shown⟩
  rw [paired.position]
  exact .refl _

theorem Paired.next (paired : Paired catalog catalog' data r s) (sized : SizesImports catalog data) :
    (s.ask (.call .next)).1 = (r.ask (.call .next)).1 ∧
      Paired catalog catalog' data (r.ask (.call .next)).2 (s.ask (.call .next)).2 := by
  have sited : (r.ask (.call .next)).2.Sited data := nextSited paired.sited
  have ahead : s.ahead? = r.ahead? := by rw [ahead?, ahead?, paired.position]
  cases found : r.ahead? with
  | none =>
    rw [askNextEnded found, askNextEnded (ahead.trans found)]
    exact ⟨rfl, paired⟩
  | some c =>
    cases within : r.inside with
    | nil =>
      have scanned : Scanned data none c := by
        have here := paired.sited.ahead found
        rwa [Reader.scope, within] at here
      rw [askNextTop within found] at sited ⊢
      rw [askNextTop (paired.inside.trans within) (ahead.trans found), paired.first, paired.second]
      obtain ⟨parallel, same⟩ := nextTopParallel catalog catalog' sized paired.symbols scanned
      rw [paired.first] at sited
      dsimp only at sited ⊢
      rw [same]
      exact ⟨rfl, rfl, rfl, rfl, rfl, parallel, sited⟩
    | cons e outer =>
      rw [askNextWithin within found] at sited ⊢
      rw [askNextWithin (paired.inside.trans within) (ahead.trans found)]
      exact ⟨rfl, paired.first, paired.second, paired.inside, rfl, paired.symbols, sited⟩

theorem Paired.ask (paired : Paired catalog catalog' data r s) (sized : SizesImports catalog data)
    (query : Query) : Paired catalog catalog' data (r.ask query).2 (s.ask query).2 := by
  obtain rfl | standing := query.nextOrStanding
  · exact (paired.next sized).2
  have sited := askSited paired.sited query
  obtain ⟨first, second, inside, position, symbols, -⟩ := paired
  cases standing with
  | stepIn =>
    have entrance : s.entrance? = r.entrance? := by
      rw [entrance?, entrance?, current?, current?, position]
    rw [askStepIn] at sited ⊢
    rw [askStepIn, entrance]
    cases enters : r.entrance? with
    | none =>
      rw [enters] at sited
      exact ⟨first, second, inside, position, symbols, sited⟩
    | some entered =>
      rw [enters] at sited
      exact ⟨first, second, congrArg (entered.1 :: ·) inside, rfl, symbols, sited⟩
  | stepOut =>
    rw [askStepOut] at sited ⊢
    rw [askStepOut, inside]
    cases within : r.inside with
    | nil =>
      rw [within] at sited
      exact ⟨first, second, inside, position, symbols, sited⟩
    | cons e outer =>
      rw [within] at sited
      exact ⟨first, second, rfl, rfl, symbols, sited⟩
  | still still =>
    rw [askStill still] at sited ⊢
    rw [askStill still]
    exact ⟨first, second, inside, congrArg query.leaves position, symbols, sited⟩

theorem Paired.answer (paired : Paired catalog catalog' data r s) (sized : SizesImports catalog data)
    (query : Query) :
    (s.ask query).1.masked r.symbols.imported r.field? =
      (r.ask query).1.masked r.symbols.imported r.field? := by
  obtain rfl | standing := query.nextOrStanding
  · rw [(paired.next sized).1]
  · rw [askAnswer, askAnswer]
    exact paired.like.reply standing

end Reader

open Reader Dialogue

/-- Where every import gives its size, two readers with any two catalogs stay at the same place of the
data, under the same ranges of symbol IDs, whatever is called. Their answers, failures included, are the
same but for the texts of imported symbols. -/
theorem catalogsAssignAlike (marked : versionMarker.isPrefixOf data = true)
    (sized : SizesImports catalog data) :
    ∃ r s, Reader.of catalog data = .ok r ∧ Reader.of catalog' data = .ok s ∧ ∀ queries,
      let r' := after ask r queries
      let s' := after ask s queries
      let imported := r'.symbols.imported
      s'.inside = r'.inside ∧ s'.position = r'.position ∧
        s'.symbols.firstLocal = r'.symbols.firstLocal ∧ s'.symbols.maxId = r'.symbols.maxId ∧
          (∀ sid, imported sid = false → s'.symbols.text? sid = r'.symbols.text? sid) ∧
            ∀ query, (s'.ask query).1.masked imported r'.field? =
              (r'.ask query).1.masked imported r'.field? := by
  let r := between catalog .system (.ofBytes data)
  let s := between catalog' .system (.ofBytes data)
  have first : Paired catalog catalog' data r s := ⟨rfl, rfl, rfl, rfl, .refl _, .before .start .top⟩
  refine ⟨r, s, if_pos marked, if_pos marked, fun queries => ?_⟩
  have paired : Paired catalog catalog' data (after ask r queries) (after ask s queries) :=
    stayRelated (Paired catalog catalog' data) first (alongAll (fun _ _ => trivial) r queries)
      fun paired _ => paired.ask sized _
  exact ⟨paired.inside, paired.position, paired.symbols.firstLocal, paired.symbols.maxId,
    fun sid shown => paired.symbols.text? shown, fun query => paired.answer sized query⟩

def Scan.onward (c : Cursor) : Cursor :=
  match topItem c with
  | .ok (.value h) _ => h.after
  | .ok _ c' => c'
  | .error _ c' => c'

def Scan.value? (c : Cursor) : Option Header :=
  match topItem c with
  | .ok (.value h) _ => some h
  | _ => none

theorem Scanned.closed {places : List Cursor} (start : .ofBytes data ∈ places)
    (closed : ∀ c ∈ places, onward c ∈ places) {c : Cursor} (scanned : Scanned data none c) :
    c ∈ places := by
  generalize top : (none : Option Container) = scope at scanned
  induction scanned with
  | start => exact start
  | @hidden scope c c' found here scan hidden ih =>
    subst top
    have next := closed c (ih rfl)
    have scan : topItem c = .ok found c' := scan
    cases found with
    | value h => exact absurd rfl (hidden h)
    | marker | padding => rwa [onward, scan] at next
  | @failed scope c c' e here scan ih =>
    subst top
    have next := closed c (ih rfl)
    have scan : topItem c = .error e c' := scan
    rwa [onward, scan] at next
  | @behind scope c c' h here scan ih =>
    subst top
    have next := closed c (ih rfl)
    have scan : topItem c = .ok (.value h) c' := scan
    rwa [onward, scan] at next
  | within => contradiction

theorem Header.FoundIn.among {places : List Cursor} (all : ∀ c, Scanned data none c → c ∈ places)
    {h : Header} (found : h.FoundIn data none) : ∃ c ∈ places, Scan.value? c = some h := by
  obtain ⟨c, c', here, scan⟩ := found
  have scan : topItem c = .ok (.value h) c' := scan
  exact ⟨c, all c here, by rw [Scan.value?, scan]⟩

theorem importedTextAlone :
    let data : Bytes := [0xE0, 0x01, 0x00, 0xEA, 0xEE, 0x90, 0x81, 0x83, 0xDD, 0x86, 0xB7, 0xD6, 0x84,
      0x81, 0x74, 0x88, 0x21, 0x02, 0x87, 0xB2, 0x81, 0x61, 0x71, 0x0A, 0x71, 0x0C]
    let catalog : Catalog := ⟨[.ofTexts "t" 1 ["x"]]⟩
    versionMarker.isPrefixOf data = true ∧ SizesImports catalog data ∧
      ∃ r s, Reader.of catalog data = .ok r ∧ Reader.of .empty data = .ok s ∧
        answers ask r [.call .next, .symbol, .call .next, .symbol] =
          [.type (some .symbol), .symbol ⟨some "x", some 10⟩, .type (some .symbol),
            .symbol ⟨some "a", some 12⟩] ∧
        answers ask s [.call .next, .symbol, .call .next, .symbol] =
          [.type (some .symbol), .symbol ⟨none, some 10⟩, .type (some .symbol),
            .symbol ⟨some "a", some 12⟩] ∧
        ∀ queries, (after ask s queries).position = (after ask r queries).position := by
  intro data catalog
  have marked : versionMarker.isPrefixOf data = true := by decide
  let places : List Cursor := [0, 4, 22, 24, 26].map fun n => ⟨n, 26, data.drop n⟩
  have all (c : Cursor) (scanned : Scanned data none c) : c ∈ places :=
    scanned.closed (by decide) (by decide +kernel)
  let table : Header := ⟨0xDD, .struct, none, [3], ⟨9, 26, data.drop 9⟩, 13⟩
  have only : ∀ c ∈ places, ∀ h ∈ Scan.value? c, h.isTable = true → h = table := by decide +kernel
  have read : (TableEntry.read table).toOption =
      some ⟨false, [⟨some "t", none, some 2⟩], [some "a"]⟩ := by decide +kernel
  have sized : SizesImports catalog data := by
    intro h found is entry reads _
    obtain ⟨c, place, value⟩ := found.among all
    cases only c place h value is
    cases read.symm.trans (congrArg Except.toOption reads)
    exact ⟨fun _ _ _ => rfl, fun _ _ => trivial⟩
  obtain ⟨r, s, opened, opened', same⟩ := catalogsAssignAlike catalog .empty marked sized
  have is : r = between catalog .system (.ofBytes data) := Except.ok.inj (opened.symm.trans (if_pos marked))
  have is' : s = between .empty .system (.ofBytes data) := Except.ok.inj (opened'.symm.trans (if_pos marked))
  refine ⟨marked, sized, r, s, opened, opened', ?_, ?_, fun queries => (same queries).2.1⟩
  · rw [is]
    decide +kernel
  · rw [is']
    decide +kernel

end Ion
