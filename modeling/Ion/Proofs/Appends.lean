import Ion.Proofs.Concatenation
import Ion.Proofs.Lookups
import Ion.Proofs.Loading

/-! Symbols that are declared in pieces. A table with the append marker goes on where the table in force
ends, so any number of them, among any other values, leave the table that declares all their symbols. -/
namespace Ion

def tablesAhead? (c : Cursor) : Option (List TableEntry) :=
  if c.atEnd then some []
  else
    match _h : Scan.topItem c with
    | .ok .padding c' => tablesAhead? c'
    | .ok (.value h) _ =>
      if h.isTable then
        match TableEntry.read h with
        | .ok entry => (tablesAhead? h.after).map (entry :: ·)
        | .error _ => none
      else tablesAhead? h.after
    | .ok .marker _ | .error _ _ => none
termination_by c.rest.length
decreasing_by
  · exact Scan.topItemShortens _ _ _ ‹_›
  all_goals
    have shorter := Scan.topItemAfter ‹_›
    have after := Header.afterShorter h
    omega

def tablesOf? (data : Bytes) : Option (List TableEntry) :=
  if versionMarker.isPrefixOf data then tablesAhead? ((Cursor.ofBytes data).advance versionMarker.length)
  else none

namespace TableEntry

def installAll (catalog : Catalog) (symbols : SymbolTable) (entries : List TableEntry) :
    Except TableFault SymbolTable :=
  entries.foldlM (fun symbols entry => entry.install catalog symbols) symbols

def appended (entries : List TableEntry) : List (Option String) := entries.flatMap TableEntry.symbols

variable {catalog : Catalog}

theorem appendAll {entries : List TableEntry} (append : ∀ entry ∈ entries, entry.append = true)
    {base : SymbolTable} (fits : base.maxId + (appended entries).length ≤ Sid.last) :
    installAll catalog base entries = .ok { base with locals := base.locals ++ appended entries } := by
  induction entries generalizing base with
  | nil => simp [installAll, appended, pure, Except.pure]
  | cons entry rest ih =>
    have marker := append entry (.head _)
    simp only [appended, List.flatMap_cons, List.length_append] at fits ih ⊢
    have here : entry.install catalog base = .ok { base with locals := base.locals ++ entry.symbols } := by
      have room : base.maxId + entry.symbols.length ≤ Sid.last := by omega
      simp [install, TableEntry.base, marker, room, bind, Except.bind, pure, Except.pure]
    have room : SymbolTable.maxId { base with locals := base.locals ++ entry.symbols } +
        (rest.flatMap TableEntry.symbols).length ≤ Sid.last := by
      simp only [SymbolTable.maxId, List.length_append] at fits ⊢
      omega
    have later := ih (fun entry other => append entry (.tail _ other)) room
    rw [installAll, List.foldlM_cons, here]
    rw [List.append_assoc] at later
    exact later

theorem installPieces {imports : List ImportEntry} {chain : Imports}
    (resolves : imports.foldlM (ImportEntry.addTo catalog) .system = .ok chain) {first : List (Option String)}
    {rest : List TableEntry} (append : ∀ entry ∈ rest, entry.append = true)
    (fits : chain.maxId + (first ++ appended rest).length ≤ Sid.last) (symbols : SymbolTable) :
    installAll catalog symbols (⟨false, imports, first⟩ :: rest) = .ok ⟨chain, first ++ appended rest⟩ := by
  rw [List.length_append] at fits
  have here : install catalog symbols ⟨false, imports, first⟩ = .ok ⟨chain, first⟩ := by
    have room : SymbolTable.maxId ⟨chain, []⟩ + first.length ≤ Sid.last := by
      simp only [SymbolTable.maxId, List.length_nil]
      omega
    simp [install, TableEntry.base, resolves, room, bind, Except.bind, pure, Except.pure, Except.map,
      SymbolTable.ofImports]
  rw [installAll, List.foldlM_cons, here]
  have behind : SymbolTable.maxId ⟨chain, first⟩ + (appended rest).length ≤ Sid.last := by
    simp only [SymbolTable.maxId]
    omega
  exact appendAll append behind

end TableEntry

def TopStep.Declares (catalog : Catalog) (last symbols : SymbolTable) : TopStep → Prop
  | exhausted _ => symbols = last
  | halted _ => False
  | value h => ∃ entries, tablesAhead? h.after = some entries ∧
      TableEntry.installAll catalog symbols entries = .ok last

theorem nextTopDeclares {catalog : Catalog} {symbols last : SymbolTable} {c : Cursor}
    {entries : List TableEntry} (ahead : tablesAhead? c = some entries)
    (installs : TableEntry.installAll catalog symbols entries = .ok last) :
    (nextTop catalog symbols c).2.Declares catalog last (nextTop catalog symbols c).1 := by
  -- the table in force changes on the way, so the tables left are said to lead to the last one from any
  fun_induction tablesAhead? c generalizing symbols entries with
  | case1 c ended =>
    cases ahead
    cases installs
    rw [nextTop, if_pos ended]
    rfl
  | case2 c inside c' scan ih =>
    rw [nextTopScanned scan]
    exact ih ahead installs
  | case3 c inside h c' scan table entry read ih =>
    obtain ⟨later, rest, rfl⟩ := Option.map_eq_some_iff.mp ahead
    rw [TableEntry.installAll, List.foldlM_cons] at installs
    obtain ⟨middle, first, installs⟩ := exceptOk installs
    have loads : symbols.load catalog h = .ok middle := by
      simp only [SymbolTable.load, read, bind, Except.bind, first]
      rfl
    rw [nextTopScanned scan]
    dsimp only
    rw [if_pos table, loads]
    exact ih rest installs
  | case4 | case6 | case7 => contradiction
  | case5 c inside h c' scan table ih =>
    rw [nextTopScanned scan]
    dsimp only
    rw [if_neg table]
    exact ⟨entries, ahead, installs⟩

namespace Reader

def Declares (catalog : Catalog) (last : SymbolTable) (r : Reader) : Prop :=
  r.catalog = catalog ∧
    match r.topAhead? with
    | none => r.symbols = last
    | some c => ∃ c' symbols entries, nextTop catalog r.symbols c = nextTop catalog symbols c' ∧
        tablesAhead? c' = some entries ∧ TableEntry.installAll catalog symbols entries = .ok last

variable {catalog : Catalog} {last : SymbolTable} {r : Reader}

theorem Declares.step (declares : r.Declares catalog last) (top : r.inside = []) {c : Cursor}
    (place : r.ahead? = some c) :
    let s := (r.ask (.call .next)).2
    s.Declares catalog last ∧ s.inside = [] ∧ (s.ahead? = none ∨ s.unread < r.unread) := by
  obtain ⟨fixed, ahead⟩ := declares
  rw [topAheadTop top, place] at ahead
  obtain ⟨c', symbols, entries, same, ahead, installs⟩ := ahead
  have found := nextTopDeclares ahead installs
  rw [← same] at found
  rw [askNextTop top place]
  dsimp only
  rw [fixed]
  cases walk : nextTop catalog r.symbols c with
  | mk symbols' step =>
    rw [walk] at found
    cases step with
    | halted halt => exact absurd found id
    | exhausted c' => exact ⟨⟨rfl, found⟩, rfl, .inl rfl⟩
    | value h =>
      obtain ⟨entries, ahead, installs⟩ := found
      refine ⟨⟨rfl, h.after, symbols', entries, rfl, ahead, installs⟩, rfl, .inr ?_⟩
      have shorter := nextTopShorter walk
      have after := h.afterShorter
      have left : r.unread = c.rest.length := by rw [unread, place]; rfl
      rw [left]
      exact Nat.lt_of_le_of_lt after shorter

theorem askDeclares (declares : r.Declares catalog last) (query : Query) :
    (r.ask query).2.Declares catalog last := by
  by_cases step : query = .call .next ∧ r.inside = []
  · obtain ⟨rfl, top⟩ := step
    cases place : r.ahead? with
    | none =>
      rw [askNextEnded place]
      exact declares
    | some c => exact (declares.step top place).1
  · have stays : query = .call .next → r.inside ≠ [] := fun next top => step ⟨next, top⟩
    obtain ⟨same, symbols, topAhead⟩ := topAheadKept stays
    rw [Declares, same, symbols, topAhead]
    exact declares

theorem Declares.atEnd (declares : r.Declares catalog last) (ended : r.AtEnd) : r.symbols = last := by
  obtain ⟨-, ahead⟩ := declares
  obtain ⟨catalog, symbols, inside, position⟩ := r
  obtain ⟨rfl, exhausted⟩ := ended
  cases position with
  | before | on => contradiction
  | exhausted => exact ahead

theorem Declares.reaches (declares : r.Declares catalog last) (top : r.inside = []) :
    ∃ n, (Dialogue.after ask r (List.replicate n (.call .next))).AtEnd := by
  induction left : r.unread using Nat.strongRecOn generalizing r with
  | ind unread ih =>
    cases place : r.ahead? with
    | none => exact ⟨0, atEndTop top place⟩
    | some c =>
      obtain ⟨on, within, ended | nearer⟩ := declares.step top place
      · exact ⟨1, atEndTop within ended⟩
      · obtain ⟨n, ended⟩ := ih _ (left ▸ nearer) on within rfl
        exact ⟨n + 1, ended⟩

theorem openedDeclares {data : Bytes} {entries : List TableEntry} (declared : tablesOf? data = some entries)
    (installs : TableEntry.installAll catalog .system entries = .ok last) :
    ∃ r, Reader.of catalog data = .ok r ∧ r.inside = [] ∧ r.Declares catalog last := by
  unfold tablesOf? at declared
  split at declared
  · rename_i marked
    obtain ⟨more, rfl⟩ := List.isPrefixOf_iff_prefix.mp marked
    refine ⟨_, if_pos marked, rfl, rfl, _, _, entries, ?_, declared, installs⟩
    exact markerNext (Cursor.ofBytesSound _) rfl catalog .system
  · contradiction

theorem reachedDeclares (declares : r.Declares catalog last) (calls : List Query) :
    (Dialogue.after ask r calls).Declares catalog last :=
  Dialogue.invariant (Declares catalog last) declares (Dialogue.alongAll (fun _ _ => trivial) _ calls)
    fun declares _ => askDeclares declares _

end Reader

namespace IndexedSymbols

def pushAll (t : IndexedSymbols) (slots : List (Option String)) : IndexedSymbols := t.after (slots.map .push)

variable {t : IndexedSymbols} {u : SymbolTable}

theorem pushAllAppend (t : IndexedSymbols) (front rest : List (Option String)) :
    t.pushAll (front ++ rest) = (t.pushAll front).pushAll rest := by
  simp only [pushAll, after, List.map_append, List.foldl_append]

theorem pushAppended (t : IndexedSymbols) (entries : List TableEntry) :
    entries.foldl (fun t entry => t.pushAll entry.symbols) t = t.pushAll (TableEntry.appended entries) := by
  induction entries generalizing t with
  | nil => rfl
  | cons entry rest ih =>
    rw [List.foldl_cons, ih, ← pushAllAppend]
    rfl

theorem Same.pushAll (same : t.Same u) (slots : List (Option String)) :
    (t.pushAll slots).Same { u with locals := u.locals ++ slots } := by
  have pushed := (same.after (slots.map .push)).2
  rw [SymbolTable.after, List.foldl_map] at pushed
  rw [← SymbolTable.pushedAll]
  exact pushed

end IndexedSymbols

/-- A datagram whose first table declares imports and symbols, and whose other tables append to the table in
force, and a datagram with one table that declares the imports and all the symbols, with any other values in
both: readers come to the end of either, and there the same symbols are in force, whatever else was asked on
the way. A table that keeps its index through all appends is the one that is filled at once. -/
theorem piecesDeclareWhole (catalog : Catalog) {imports : List ImportEntry} {chain : Imports}
    (resolves : imports.foldlM (ImportEntry.addTo catalog) .system = .ok chain)
    {first : List (Option String)} {rest : List TableEntry} (append : ∀ entry ∈ rest, entry.append = true)
    (fits : chain.maxId + (first ++ TableEntry.appended rest).length ≤ Sid.last) {pieces whole : Bytes}
    (split : tablesOf? pieces = some (⟨false, imports, first⟩ :: rest))
    (single : tablesOf? whole = some [⟨false, imports, first ++ TableEntry.appended rest⟩]) :
    ∃ r r', Reader.of catalog pieces = .ok r ∧ Reader.of catalog whole = .ok r' ∧
      (∃ n, (Dialogue.after Reader.ask r (List.replicate n (.call .next))).AtEnd) ∧
      (∃ n, (Dialogue.after Reader.ask r' (List.replicate n (.call .next))).AtEnd) ∧
      ∀ calls calls', (Dialogue.after Reader.ask r calls).AtEnd → (Dialogue.after Reader.ask r' calls').AtEnd →
        let t := (Dialogue.after Reader.ask r calls).symbols
        let t' := (Dialogue.after Reader.ask r' calls').symbols
        t = ⟨chain, first ++ TableEntry.appended rest⟩ ∧ t = t' ∧
          ∀ below : ImportChain, below.layers = chain.placed →
            let u := rest.foldl (fun u entry => u.pushAll entry.symbols)
              ((IndexedSymbols.ofImports below).pushAll first)
            u = (IndexedSymbols.ofImports below).pushAll (first ++ TableEntry.appended rest) ∧
              u.firstLocal = t'.firstLocal ∧ u.maxId = t'.maxId ∧
                (∀ sid, u.text? sid = t'.text? sid) ∧ ∀ text, u.find? text = t'.find? text := by
  have all := TableEntry.installPieces resolves append fits .system
  have whole : chain.maxId + ((first ++ TableEntry.appended rest) ++ TableEntry.appended []).length ≤ Sid.last := by
    rwa [show TableEntry.appended [] = [] from rfl, List.append_nil]
  have alone := TableEntry.installPieces resolves (List.forall_mem_nil _) whole .system
  rw [show TableEntry.appended [] = [] from rfl, List.append_nil] at alone
  obtain ⟨r, opens, top, declares⟩ := Reader.openedDeclares split all
  obtain ⟨r', opens', top', declares'⟩ := Reader.openedDeclares single alone
  refine ⟨r, r', opens, opens', declares.reaches top, declares'.reaches top',
    fun calls calls' ended ended' => ?_⟩
  have last := (Reader.reachedDeclares declares calls).atEnd ended
  have last' := (Reader.reachedDeclares declares' calls').atEnd ended'
  refine ⟨last, last.trans last'.symm, fun below layers => ?_⟩
  have once := IndexedSymbols.pushAppended ((IndexedSymbols.ofImports below).pushAll first) rest
  rw [← IndexedSymbols.pushAllAppend] at once
  have same := (IndexedSymbols.sameImports layers).pushAll (first ++ TableEntry.appended rest)
  dsimp only
  rw [once, last']
  exact ⟨rfl, same.maxId.2, same.maxId.1, same.text, same.find⟩

theorem repeatedTextsDeclareWhole :
    let catalog : Catalog := ⟨[.ofTexts "t" 1 ["a", "z"]]⟩
    let table (body : Bytes) : Bytes :=
      [0xEE, UInt8.ofNat (0x84 + body.length), 0x81, 0x83, 0xDE, UInt8.ofNat (0x80 + body.length)] ++ body
    let imports : Bytes := [0x86, 0xBA, 0xD9, 0x84, 0x81, 0x74, 0x85, 0x21, 1, 0x88, 0x21, 2]
    let marker : Bytes := [0x86, 0x71, 3]
    let pieces : Bytes := versionMarker ++ table (imports ++ [0x87, 0xB5, 0x81, 0x78, 0x0F, 0x81, 0x61]) ++
      [0x11, 0x00] ++ table (marker ++ [0x87, 0xB4, 0x81, 0x78, 0x81, 0x79]) ++ [0xD2, 0x8C, 0x0F] ++
      table (marker ++ [0x87, 0xB3, 0x20, 0x81, 0x7A])
    let whole : Bytes := versionMarker ++ [0x0F] ++
      table (imports ++ [0x87, 0xBC, 0x81, 0x78, 0x0F, 0x81, 0x61, 0x81, 0x78, 0x81, 0x79, 0x20, 0x81, 0x7A])
    ∃ r r', Reader.of catalog pieces = .ok r ∧ Reader.of catalog whole = .ok r' ∧
      let t := (Dialogue.after Reader.ask r (List.replicate 3 (.call .next))).symbols
      t = (Dialogue.after Reader.ask r' (List.replicate 2 (.call .next))).symbols ∧
        t.locals = [some "x", none, some "a", some "x", some "y", none, some "z"] ∧
        t.find? "x" = some 12 ∧ t.find? "y" = some 16 ∧ t.find? "a" = some 10 ∧ t.find? "z" = some 11 := by
  intro catalog table imports marker pieces whole
  have resolves : [ImportEntry.mk (some "t") (some 1) (some 2)].foldlM (ImportEntry.addTo catalog) .system =
      .ok ⟨[⟨.ofTexts "t" 1 ["a", "z"], 2⟩]⟩ := by decide +kernel
  have split : tablesOf? pieces = some (⟨false, [⟨some "t", some 1, some 2⟩], [some "x", none, some "a"]⟩ ::
      [⟨true, [], [some "x", some "y"]⟩, ⟨true, [], [none, some "z"]⟩]) := by decide +kernel
  have single : tablesOf? whole = some [⟨false, [⟨some "t", some 1, some 2⟩],
      [some "x", none, some "a", some "x", some "y", none, some "z"]⟩] := by decide +kernel
  obtain ⟨r, r', opens, opens', -, -, last⟩ :=
    piecesDeclareWhole catalog resolves (by decide) (by decide) split single
  cases Reader.openedAs opens
  cases Reader.openedAs opens'
  obtain ⟨symbols, same, -⟩ := last (List.replicate 3 (.call .next)) (List.replicate 2 (.call .next))
    (by decide +kernel) (by decide +kernel)
  refine ⟨_, _, opens, opens', same, ?_⟩
  rw [symbols]
  decide +kernel

end Ion
