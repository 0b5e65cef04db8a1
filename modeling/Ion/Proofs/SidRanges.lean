import Ion.Proofs.Concatenation
import Ion.Proofs.WordSymbols

/-! Symbol IDs along the calls of a reader. Every table that a reader comes upon is counted before it is put in
force, so the tables in words that go with it never overflow, and a table is refused only if it has no
room. -/
namespace Ion

def nextTopWords (catalog : Catalog) (w : WordSymbols) (c : Cursor) : Except WordStop WordSymbols :=
  if c.atEnd then .ok w
  else
    match _h : Scan.topItem c with
    | .error _ _ => .ok w
    | .ok .marker c' => nextTopWords catalog (.ofImports .system) c'
    | .ok .padding c' => nextTopWords catalog w c'
    | .ok (.value h) _ =>
      if h.isTable then
        match TableEntry.read h with
        | .error _ => .ok w
        | .ok entry =>
          match w.install catalog entry with
          | .ok w => nextTopWords catalog w h.after
          | .error (.refused _) => .ok w
          | .error .overflow => .error .overflow
      else .ok w
termination_by c.rest.length
decreasing_by
  · exact Scan.topItemShortens _ _ _ ‹_›
  · exact Scan.topItemShortens _ _ _ ‹_›
  · have shorter := Scan.topItemAfter ‹_›
    have after := Header.afterShorter h
    omega

theorem nextTopWordsScanned {c c' : Cursor} {found : TopItem} (scan : Scan.topItem c = .ok found c')
    (catalog : Catalog) (w : WordSymbols) :
    nextTopWords catalog w c =
      match found with
      | .marker => nextTopWords catalog (.ofImports .system) c'
      | .padding => nextTopWords catalog w c'
      | .value h =>
        if h.isTable then
          match TableEntry.read h with
          | .error _ => .ok w
          | .ok entry =>
            match w.install catalog entry with
            | .ok w => nextTopWords catalog w h.after
            | .error (.refused _) => .ok w
            | .error .overflow => .error .overflow
        else .ok w := by
  rw [nextTopWords, if_neg (Scan.topItemStarted scan)]
  split <;> rename_i read <;> rw [scan] at read <;> cases read <;> rfl

theorem nextTopSpells {catalog : Catalog} (counted : catalog.Counted) {w : WordSymbols} {symbols : SymbolTable}
    (spells : w.Spells symbols) (c : Cursor) :
    ∃ w', nextTopWords catalog w c = .ok w' ∧ w'.Spells (nextTop catalog symbols c).1 := by
  -- each table on the way is installed or refused in words as on numbers
  fun_induction nextTop catalog symbols c generalizing w with
  | case1 symbols c ended =>
    rw [nextTopWords, if_pos ended]
    exact ⟨w, rfl, spells⟩
  | case2 symbols c inside e c' scan =>
    rw [nextTopWords, if_neg inside]
    split <;> rename_i read <;> rw [scan] at read <;> cases read
    exact ⟨w, rfl, spells⟩
  | case3 symbols c inside c' scan ih =>
    rw [nextTopWordsScanned scan]
    exact ih (.ofImports .system)
  | case4 symbols c inside c' scan ih =>
    rw [nextTopWordsScanned scan]
    exact ih spells
  | case5 symbols c inside h c' scan table loaded loads ih =>
    obtain ⟨entry, read, installs⟩ := exceptOk loads
    have installed := spells.install counted entry
    rw [mapErrorOk.mp installs] at installed
    obtain ⟨w', here, spells'⟩ := installed
    rw [nextTopWordsScanned scan]
    dsimp only
    rw [if_pos table, read]
    dsimp only
    rw [here]
    exact ih spells'
  | case6 symbols c inside h c' scan table halt loads =>
    rw [nextTopWordsScanned scan]
    dsimp only
    rw [if_pos table]
    rcases exceptFailed loads with failed | ⟨entry, read, failed⟩
    · rw [failed]
      exact ⟨w, rfl, spells⟩
    · obtain ⟨fault, refused, -⟩ := mapErrorFailed failed
      have installed := spells.install counted entry
      rw [refused] at installed
      rw [read]
      dsimp only
      rw [installed]
      exact ⟨w, rfl, spells⟩
  | case7 symbols c inside h c' scan table =>
    rw [nextTopWordsScanned scan]
    dsimp only
    rw [if_neg table]
    exact ⟨w, rfl, spells⟩

namespace Reader

variable {r : Reader} {w : WordSymbols}

def askWords (r : Reader) (w : WordSymbols) (query : Query) : Except WordStop WordSymbols :=
  match query, r.inside, r.ahead? with
  | .call .next, [], some c => nextTopWords r.catalog w c
  | _, _, _ => .ok w

def words (r : Reader) (w : WordSymbols) : List Query → Except WordStop WordSymbols
  | [] => .ok w
  | query :: rest => do (r.ask query).2.words (← r.askWords w query) rest

theorem askSpells (counted : r.catalog.Counted) (spells : w.Spells r.symbols) (query : Query) :
    ∃ w', r.askWords w query = .ok w' ∧ w'.Spells (r.ask query).2.symbols ∧
      (r.ask query).2.catalog = r.catalog := by
  by_cases step : query = .call .next ∧ r.inside = []
  · obtain ⟨rfl, top⟩ := step
    cases ahead : r.ahead? with
    | none =>
      rw [askNextEnded ahead]
      exact ⟨w, by simp only [askWords, top, ahead], spells, rfl⟩
    | some c =>
      obtain ⟨w', walk, spells'⟩ := nextTopSpells counted spells c
      rw [askNextTop top ahead]
      exact ⟨w', by simp only [askWords, top, ahead, walk], spells', rfl⟩
  · have stays : query = .call .next → r.inside ≠ [] := fun next top => step ⟨next, top⟩
    obtain ⟨same, symbols, -⟩ := topAheadKept stays
    refine ⟨w, ?_, symbols ▸ spells, same⟩
    unfold askWords
    split
    · rename_i top ahead
      exact absurd ⟨rfl, top⟩ step
    · rfl

theorem wordsSpell (counted : r.catalog.Counted) (spells : w.Spells r.symbols) (calls : List Query) :
    ∃ w', r.words w calls = .ok w' ∧ w'.Spells (Dialogue.after ask r calls).symbols := by
  induction calls generalizing r w with
  | nil => exact ⟨w, rfl, spells⟩
  | cons query rest ih =>
    obtain ⟨w', here, spells', same⟩ := askSpells counted spells query
    obtain ⟨last, later, spells''⟩ := ih (same ▸ counted) spells'
    exact ⟨last, by rw [words, here]; exact later, spells''⟩

end Reader

theorem Imports.maxIdAppend (i : Imports) (layers : List Layer) :
    maxId ⟨i.added ++ layers⟩ = i.maxId + Layer.total layers := by
  simp only [maxId, Imports.layers, Layer.total, Layer.totalAppend, Nat.add_assoc]

namespace ImportEntry

def wanted (catalog : Catalog) (entry : ImportEntry) : Except TableFault (Option Layer) :=
  match entry.name with
  | none => .ok none
  | some name =>
    if name = "" ∨ name = "$ion" then .ok none
    else do
      let maxId ← entry.usedMaxId name
      return some (← layer catalog name entry.usedVersion maxId)

def wantedAll (catalog : Catalog) : List ImportEntry → Except TableFault (List Layer)
  | [] => .ok []
  | entry :: rest => do
    let layer ← entry.wanted catalog
    return layer.toList ++ (← wantedAll catalog rest)

variable {catalog : Catalog} {i : Imports}

theorem pushRoom (i : Imports) (l : Layer) :
    i.push? l = if i.maxId + l.length < Sid.last then some (i.push l) else none := by
  rw [Imports.push?, Nat.add_right_comm]
  rfl

theorem wantedAdds {entry : ImportEntry} {layer : Option Layer} (wants : entry.wanted catalog = .ok layer)
    (room : i.maxId < Sid.last) :
    if i.maxId + Layer.total layer.toList < Sid.last then
      entry.addTo catalog i = .ok ⟨i.added ++ layer.toList⟩
    else ∃ fault, entry.addTo catalog i = .error fault := by
  have nothing {added : Except TableFault Imports} (same : added = .ok i) :
      if i.maxId + Layer.total [] < Sid.last then added = .ok ⟨i.added ++ []⟩
      else ∃ fault, added = .error fault := by
    rw [Layer.total, Nat.add_zero, if_pos room, same, List.append_nil]
  unfold wanted at wants
  unfold addTo
  cases named : entry.name with
  | none =>
    rw [named] at wants
    cases wants
    exact nothing rfl
  | some name =>
    rw [named] at wants
    dsimp only at wants ⊢
    by_cases skipped : name = "" ∨ name = "$ion"
    · rw [if_pos skipped] at wants ⊢
      cases wants
      exact nothing rfl
    · rw [if_neg skipped] at wants ⊢
      obtain ⟨maxId, used, wants⟩ := exceptOk wants
      obtain ⟨l, asked, ⟨⟩⟩ := exceptOk wants
      simp only [used, asked, bind, Except.bind, pushRoom, Option.toList_some, Layer.total, Nat.add_zero]
      by_cases inside : i.maxId + l.length < Sid.last
      · rw [if_pos inside, if_pos inside]
        rfl
      · rw [if_neg inside, if_neg inside]
        exact ⟨_, rfl⟩

theorem wantedAllAdd {entries : List ImportEntry} {layers : List Layer}
    (wants : wantedAll catalog entries = .ok layers) (room : i.maxId < Sid.last) :
    if i.maxId + Layer.total layers < Sid.last then
      entries.foldlM (addTo catalog) i = .ok ⟨i.added ++ layers⟩
    else ∃ fault, entries.foldlM (addTo catalog) i = .error fault := by
  induction entries generalizing i layers with
  | nil =>
    cases wants
    rw [Layer.total, Nat.add_zero, if_pos room, List.append_nil]
    rfl
  | cons entry rest ih =>
    obtain ⟨layer, first, wants⟩ := exceptOk wants
    obtain ⟨later, others, ⟨⟩⟩ := exceptOk wants
    have added := wantedAdds first room
    rw [List.foldlM_cons, Layer.totalAppend]
    by_cases inside : i.maxId + Layer.total layer.toList < Sid.last
    · have last := i.maxIdAppend layer.toList
      have rest := ih others (i := ⟨i.added ++ layer.toList⟩) (by rwa [last])
      rw [if_pos inside] at added
      rw [last, List.append_assoc] at rest
      rw [added, ← Nat.add_assoc]
      exact rest
    · rw [if_neg inside] at added
      obtain ⟨fault, refused⟩ := added
      -- layers only add symbol IDs, so what is too much here is too much for all
      rw [if_neg (by omega), refused]
      exact ⟨fault, rfl⟩

end ImportEntry

namespace TableEntry

def ends (t : SymbolTable) (layers : List Layer) (entry : TableEntry) : Nat × Nat :=
  if entry.append then (t.imports.maxId, t.maxId + entry.symbols.length)
  else (9 + Layer.total layers, 9 + Layer.total layers + entry.symbols.length)

variable {catalog : Catalog} {t : SymbolTable} {entry : TableEntry}

theorem installBehind {base : SymbolTable} (based : entry.base catalog t = .ok base) :
    if base.maxId + entry.symbols.length ≤ Sid.last then
      ∃ t', entry.install catalog t = .ok t' ∧ t'.imports.maxId = base.imports.maxId ∧
        t'.maxId = base.maxId + entry.symbols.length
    else ∃ fault, entry.install catalog t = .error fault := by
  simp only [install, based, bind, Except.bind]
  by_cases room : base.maxId + entry.symbols.length ≤ Sid.last
  · rw [if_pos room, if_pos room]
    exact ⟨_, rfl, rfl, by simp only [SymbolTable.maxId, List.length_append, Nat.add_assoc]⟩
  · rw [if_neg room, if_neg room]
    exact ⟨_, rfl⟩

theorem baseRoom (room : t.imports.maxId < Sid.last) {layers : List Layer}
    (wants : entry.append = false → ImportEntry.wantedAll catalog entry.imports = .ok layers) :
    if (entry.ends t layers).1 < Sid.last then
      ∃ base, entry.base catalog t = .ok base ∧
        (base.imports.maxId, base.maxId + entry.symbols.length) = entry.ends t layers
    else ∃ fault, entry.base catalog t = .error fault := by
  unfold ends base
  cases append : entry.append with
  | true =>
    simp only [if_true, room]
    exact ⟨t, rfl, rfl⟩
  | false =>
    have resolved := ImportEntry.wantedAllAdd (i := .system) (wants append) (by decide)
    have last := Imports.maxIdAppend .system layers
    rw [Imports.maxIdSystem] at resolved last
    simp only [Bool.false_eq_true, if_false]
    by_cases inside : 9 + Layer.total layers < Sid.last
    · rw [if_pos inside] at resolved ⊢
      rw [resolved]
      exact ⟨_, rfl, by rw [← last]; rfl⟩
    · rw [if_neg inside] at resolved ⊢
      obtain ⟨fault, refused⟩ := resolved
      rw [refused]
      exact ⟨fault, rfl⟩

theorem installRoom (room : t.imports.maxId < Sid.last) {layers : List Layer}
    (wants : entry.append = false → ImportEntry.wantedAll catalog entry.imports = .ok layers) :
    if (entry.ends t layers).1 < Sid.last ∧ (entry.ends t layers).2 ≤ Sid.last then
      ∃ t', entry.install catalog t = .ok t' ∧ (t'.imports.maxId, t'.maxId) = entry.ends t layers
    else ∃ fault, entry.install catalog t = .error fault := by
  have decided := baseRoom room wants
  by_cases inside : (entry.ends t layers).1 < Sid.last
  · rw [if_pos inside] at decided
    obtain ⟨base, based, ends⟩ := decided
    have behind := installBehind based
    rw [← ends] at inside ⊢
    simp only [inside, true_and]
    by_cases fits : base.maxId + entry.symbols.length ≤ Sid.last
    · rw [if_pos fits] at behind ⊢
      obtain ⟨t', installed, imports, last⟩ := behind
      exact ⟨t', installed, by rw [imports, last]⟩
    · rw [if_neg fits] at behind ⊢
      exact behind
  · rw [if_neg inside] at decided
    rw [if_neg fun both => inside both.1]
    obtain ⟨fault, refused⟩ := decided
    exact ⟨fault, by simp only [install, refused, bind, Except.bind]⟩

end TableEntry

structure WordSymbols.Exact (w : WordSymbols) (t : SymbolTable) : Prop where
  importsMaxId : w.imports.maxId = .ok (.ofNat t.imports.maxId)
  importsFind text : w.imports.find text = .ok ((t.imports.find? text).map .ofNat)
  importsText (sid : UInt32) : w.imports.text sid = .ok (t.imports.text? sid.toNat)
  firstLocal : w.firstLocal = .ok (.ofNat t.firstLocal)
  maxId : w.maxId = .ok (.ofNat t.maxId)
  find text : w.find text = .ok ((t.find? text).map .ofNat)
  text (sid : UInt32) : w.text sid = .ok (t.text? sid.toNat)

theorem WordSymbols.Spells.exact {w : WordSymbols} {t : SymbolTable} (spells : w.Spells t) : w.Exact t where
  importsMaxId := spells.imports.maxId
  importsFind := spells.imports.find
  importsText sid := by
    have text := spells.imports.text (Nat.le_of_lt_succ sid.toNat_lt)
    rwa [UInt32.ofNat_toNat] at text
  firstLocal := spells.firstLocal
  maxId := spells.maxId
  find := spells.find
  text sid := by
    have text := spells.text (Nat.le_of_lt_succ sid.toNat_lt)
    rwa [UInt32.ofNat_toNat] at text

/-- On whatever bytes, along whatever calls, the symbol tables in words that go with a reader never overflow:
they are exact on every question about every word and text, and each table that could come next is installed
or refused as the table on numbers. The imports end before the greatest symbol ID and the table at it or
before, and a table whose imports resolve is refused just if it does not. -/
theorem sidsNeverOverflow {catalog : Catalog} (counted : catalog.Counted) {data : Bytes} {opened : Reader}
    (opens : Reader.of catalog data = .ok opened) (calls : List Reader.Query) :
    let t := (Dialogue.after Reader.ask opened calls).symbols
    t.imports.maxId ≤ Sid.last - 1 ∧ t.maxId ≤ Sid.last ∧
      (∃ w, opened.words (.ofImports .system) calls = .ok w ∧ w.Exact t ∧
        ∀ entry : TableEntry,
          match entry.install catalog t with
          | .ok t' => ∃ w', w.install catalog entry = .ok w' ∧ w'.Exact t'
          | .error fault => w.install catalog entry = .error (.refused fault)) ∧
      ∀ h entry layers, TableEntry.read h = .ok entry →
        (entry.append = false → ImportEntry.wantedAll catalog entry.imports = .ok layers) →
          if (entry.ends t layers).1 ≤ Sid.last - 1 ∧ (entry.ends t layers).2 ≤ Sid.last then
            ∃ t', t.load catalog h = .ok t' ∧ (t'.imports.maxId, t'.maxId) = entry.ends t layers
          else ∃ fault, t.load catalog h = .error (.before (.badSymbolTable fault) h.after) := by
  intro t
  have first : (WordSymbols.ofImports .system).Spells opened.symbols := by
    rw [Reader.openedAs opens]
    exact .ofImports .system
  have same : opened.catalog = catalog := by rw [Reader.openedAs opens]
  obtain ⟨w, along, spells⟩ := Reader.wordsSpell (same ▸ counted) first calls
  have room := spells.imports.room
  refine ⟨Nat.le_sub_one_of_lt room, spells.room, ⟨w, along, spells.exact, fun entry => ?_⟩, ?_⟩
  · have installed := spells.install counted entry
    cases loads : entry.install catalog t with
    | error fault =>
      rw [loads] at installed
      exact installed
    | ok t' =>
      rw [loads] at installed
      obtain ⟨w', here, spells'⟩ := installed
      exact ⟨w', here, spells'.exact⟩
  · intro h entry layers read wants
    have installs := TableEntry.installRoom room wants
    have load : t.load catalog h =
        (entry.install catalog t).mapError fun fault => .before (.badSymbolTable fault) h.after := by
      simp only [SymbolTable.load, read, bind, Except.bind]
    have below : (entry.ends t layers).1 ≤ Sid.last - 1 ↔ (entry.ends t layers).1 < Sid.last :=
      Nat.le_sub_one_iff_lt (by decide)
    simp only [below, load]
    by_cases fits : (entry.ends t layers).1 < Sid.last ∧ (entry.ends t layers).2 ≤ Sid.last
    · rw [if_pos fits] at installs ⊢
      obtain ⟨t', installed, ends⟩ := installs
      exact ⟨t', congrArg (Except.mapError _) installed, ends⟩
    · rw [if_neg fits] at installs ⊢
      obtain ⟨fault, refused⟩ := installs
      exact ⟨fault, congrArg (Except.mapError _) refused⟩

theorem lastSidTaken :
    let catalog : Catalog := ⟨[.ofTexts "u" 1 ["a", "b"]]⟩
    let table (body : Bytes) : Bytes :=
      [0xEE, UInt8.ofNat (0x84 + body.length), 0x81, 0x83, 0xDE, UInt8.ofNat (0x80 + body.length)] ++ body
    let imports : Bytes :=
      [0x86, 0xBE, 0x8E, 0xD3, 0x84, 0x81, 0x75, 0xD9, 0x84, 0x81, 0x74, 0x88, 0x24, 0xFF, 0xFF, 0xFF, 0xF3]
    let data : Bytes := versionMarker ++ table (imports ++ [0x87, 0xB2, 0x81, 0x78]) ++ [0x11] ++
      table [0x86, 0x71, 3, 0x87, 0xB2, 0x81, 0x79]
    ∃ r w, Reader.of catalog data = .ok r ∧ r.words (.ofImports .system) [.call .next] = .ok w ∧
      w.maxId = .ok 0xFFFFFFFF ∧ w.text 0xFFFFFFFF = .ok (some "x") ∧ w.find "x" = .ok (some 0xFFFFFFFF) ∧
        w.find "b" = .ok (some 11) ∧ w.text 12 = .ok none ∧
        w.install catalog ⟨true, [], [some "y"]⟩ = .error (.refused (.localRange 1 0xFFFFFFFF)) ∧
          Dialogue.answers Reader.ask r [.call .next, .call .next] =
            [.type (some .bool), .failed (.badSymbolTable (.localRange 1 0xFFFFFFFF))] := by
  intro catalog table imports data
  have counted : catalog.Counted := by
    unfold Catalog.Counted
    decide
  let t : SymbolTable :=
    ⟨⟨[⟨.ofTexts "u" 1 ["a", "b"], 2⟩, ⟨.placeholder "t" 1 0xFFFFFFF3, 0xFFFFFFF3⟩]⟩, [some "x"]⟩
  obtain ⟨r, opens⟩ : ∃ r, Reader.of catalog data = .ok r := ⟨_, rfl⟩
  obtain ⟨-, -, ⟨w, along, exact_, installs⟩, -⟩ := sidsNeverOverflow counted opens [.call .next]
  cases Reader.openedAs opens
  have symbols : (Dialogue.after Reader.ask ⟨catalog, .system, [], .before (.ofBytes data)⟩
      [.call .next]).symbols = t := by decide +kernel
  rw [symbols] at exact_ installs
  have refuses {entry : TableEntry} {fault : TableFault} (refused : entry.install catalog t = .error fault) :
      w.install catalog entry = .error (.refused fault) := by
    have installed := installs entry
    rwa [refused] at installed
  exact ⟨_, w, opens, along, exact_.maxId.trans (by decide +kernel), (exact_.text _).trans (by decide +kernel),
    (exact_.find _).trans (by decide +kernel), (exact_.find _).trans (by decide +kernel),
    (exact_.text _).trans (by decide +kernel), refuses (by decide +kernel), by decide +kernel⟩

end Ion
