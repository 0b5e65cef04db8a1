import Ion.Proofs.Reading
import Ion.Proofs.Streaming
import Ion.Proofs.Symbols
import Ion.SessionWriter

/-! Local symbol tables from the writer to the reader: the table that declares new symbols is one
tree, and the reader that meets it has the symbols of the writer in force behind it. -/
namespace Ion

theorem Represents.script {w : SidWriter} {d d' : Draft} (same : Represents w d)
    {requests : List SidRequest} (kept : SidRequest.reset ∉ requests)
    (runs : Calls.Runs Draft.perform d requests d') :
    ∃ w', SidRequest.script requests w = .ok () w' ∧ Represents w' d' := by
  induction requests generalizing w d with
  | nil =>
    obtain ⟨rfl, _⟩ := runs
    exact ⟨w, rfl, same⟩
  | cons request rest ih =>
    have step := same.performs (List.ne_of_not_mem_cons kept).symm
    obtain ⟨done, rest⟩ := runs.begins
    have first := SidRequest.callDone (List.ne_of_not_mem_cons kept).symm (step.1.trans done)
    obtain ⟨w', more, after⟩ := ih step.2 (List.not_mem_of_not_mem_cons kept) rest
    exact ⟨w', (bindRuns first).trans more, after⟩

namespace TableTree

def listMember (sid : Nat) (items : List Tree) : List Tree :=
  if items = [] then [] else [.container (some sid) [] .list items]

def importEntry (l : Layer) : Tree :=
  .container none [] .struct
    [.atom (some Sid.name) [] (.string l.table.name), .atom (some Sid.version) [] (.int l.table.version),
      .atom (some Sid.maxId) [] (.int l.length)]

def symbolAtom : Option String → Atom
  | some text => .string text
  | none => .null .string

def symbolEntry (slot : Option String) : Tree := .atom none [] (symbolAtom slot)

def members (append : Bool) (imports : List Layer) (added : List (Option String)) : List Tree :=
  (if append then [.atom (some Sid.imports) [] (.symbol Sid.symbolTable)]
    else listMember Sid.imports (imports.map importEntry)) ++
  listMember Sid.symbols (added.map symbolEntry)

def whole (append : Bool) (imports : List Layer) (added : List (Option String)) : Tree :=
  .container none [Sid.symbolTable] .struct (members append imports added)

def memberCalls (sid : Nat) (a : Atom) : List SidRequest := [.setField sid, .write a]

def listCalls (sid : Nat) (items : List α) (item : α → List SidRequest) : List SidRequest :=
  if items = [] then []
  else .setField sid :: .stepIn .list :: (items.flatMap item ++ [.stepOut])

def importCalls (l : Layer) : List SidRequest :=
  .stepIn .struct :: (memberCalls Sid.name (.string l.table.name) ++
    (memberCalls Sid.version (.int l.table.version) ++ memberCalls Sid.maxId (.int l.length)) ++
      [.stepOut])

def symbolCalls (slot : Option String) : List SidRequest := [.write (symbolAtom slot)]

def calls (append : Bool) (imports : List Layer) (added : List (Option String)) : List SidRequest :=
  .annotate Sid.symbolTable :: .stepIn .struct ::
    ((if append then memberCalls Sid.imports (.symbol Sid.symbolTable)
        else listCalls Sid.imports imports importCalls) ++
      listCalls Sid.symbols added symbolCalls ++ [.stepOut])

theorem scriptAppend (left right : List SidRequest) :
    SidRequest.script (left ++ right) =
      SidRequest.script left >>= fun _ => SidRequest.script right := List.forM_append

theorem memberScript (sid : Nat) (a : Atom) :
    SessionWriter.member sid a = SidRequest.script (memberCalls sid a) := by
  simp [SessionWriter.member, SidRequest.script, memberCalls, SidRequest.call]

theorem itemsScript (items : List α) (item : α → SidWriter.Call Unit) (calls : α → List SidRequest)
    (each : ∀ a, item a = SidRequest.script (calls a)) :
    items.forM item = SidRequest.script (items.flatMap calls) := by
  induction items with
  | nil => rfl
  | cons a rest ih =>
    rw [List.flatMap_cons, scriptAppend, ← each, ← ih]
    rfl

theorem listScript (sid : Nat) (items : List α) (item : α → SidWriter.Call Unit)
    (calls : α → List SidRequest) (each : ∀ a, item a = SidRequest.script (calls a)) :
    SessionWriter.memberList sid items item = SidRequest.script (listCalls sid items calls) := by
  unfold SessionWriter.memberList listCalls
  rw [itemsScript items item calls each]
  cases items with
  | nil => rfl
  | cons a rest =>
    have last : SidRequest.script [.stepOut] = SidWriter.stepOut := by
      simp [SidRequest.script, SidRequest.call]
    simp only [List.isEmpty_cons, Bool.not_false, if_true, reduceCtorEq, if_false]
    rw [← last, ← scriptAppend]
    rfl

theorem importScript (l : Layer) : SessionWriter.importEntry l = SidRequest.script (importCalls l) := by
  have last : SidRequest.script [.stepOut] = SidWriter.stepOut := by
    simp [SidRequest.script, SidRequest.call]
  unfold SessionWriter.importEntry importCalls
  simp only [memberScript]
  rw [← last]
  simp only [← scriptAppend, List.append_assoc]
  rfl

theorem symbolScript (slot : Option String) :
    SessionWriter.symbolEntry slot = SidRequest.script (symbolCalls slot) := by
  cases slot <;> simp [SessionWriter.symbolEntry, SidRequest.script, symbolCalls, SidRequest.call,
    symbolAtom]

theorem tableScript (append : Bool) (imports : List Layer) (added : List (Option String)) :
    SessionWriter.writeTable append imports added = SidRequest.script (calls append imports added) := by
  have last : SidRequest.script [.stepOut] = SidWriter.stepOut := by
    simp [SidRequest.script, SidRequest.call]
  unfold SessionWriter.writeTable calls
  rw [memberScript, listScript Sid.imports imports _ importCalls importScript,
    listScript Sid.symbols added _ symbolCalls symbolScript, ← last]
  cases append <;> simp only [← scriptAppend, List.append_assoc] <;> rfl

theorem listWritten {sid : Nat} {items : List α} {tree : α → Tree} {calls : α → List SidRequest}
    (each : ∀ a, Tree.Written false [tree a] (calls a)) :
    Tree.Written true (listMember sid (items.map tree)) (listCalls sid items calls) := by
  have children : Tree.Written false (items.map tree) (items.flatMap calls) := by
    induction items with
    | nil => exact .nothing
    | cons a rest ih => exact (each a).append ih
  unfold listMember listCalls
  cases items with
  | nil => exact .nothing
  | cons a rest =>
    have named : SidRequest.announced true [.setField sid] = some ⟨some sid, []⟩ := rfl
    simp only [List.map_cons, reduceCtorEq, if_false]
    exact .container named children .nothing

theorem memberWritten (sid : Nat) (a : Atom) :
    Tree.Written true [.atom (some sid) [] a] (memberCalls sid a) := by
  have named : SidRequest.announced true [.setField sid] = some ⟨some sid, []⟩ := rfl
  exact .atom named .nothing

theorem importWritten (l : Layer) : Tree.Written false [importEntry l] (importCalls l) := by
  have bare : SidRequest.announced false [] = some ⟨none, []⟩ := rfl
  have inner := (memberWritten Sid.name (.string l.table.name)).append
    ((memberWritten Sid.version (.int l.table.version)).append (memberWritten Sid.maxId (.int l.length)))
  exact .container bare inner .nothing

theorem symbolWritten (slot : Option String) :
    Tree.Written false [symbolEntry slot] (symbolCalls slot) := by
  have bare : SidRequest.announced false [] = some ⟨none, []⟩ := rfl
  exact .atom bare .nothing

theorem written (append : Bool) (imports : List Layer) (added : List (Option String)) :
    Tree.Written false [whole append imports added] (calls append imports added) := by
  have marked : SidRequest.announced false [SidRequest.annotate Sid.symbolTable] =
      some ⟨none, [Sid.symbolTable]⟩ := rfl
  have first : Tree.Written true
      (if append then [.atom (some Sid.imports) [] (.symbol Sid.symbolTable)]
        else listMember Sid.imports (imports.map importEntry))
      (if append then memberCalls Sid.imports (.symbol Sid.symbolTable)
        else listCalls Sid.imports imports importCalls) := by
    cases append
    · exact listWritten importWritten
    · exact memberWritten Sid.imports (.symbol Sid.symbolTable)
  have inner := first.append (listWritten symbolWritten : Tree.Written true
    (listMember Sid.symbols (added.map symbolEntry)) (listCalls Sid.symbols added symbolCalls))
  exact .container marked inner .nothing

end TableTree

inductive Folds (step : σ → Header → Except Halt σ) : σ → List Tree → σ → Prop
  | nothing {a} : Folds step a [] a
  | child {a b c t rest} (one : ∀ {h : Header}, h.Is t → step a h = .ok b) (more : Folds step b rest c) :
      Folds step a (t :: rest) c

theorem Folds.append {step : σ → Header → Except Halt σ} {a b c : σ} {left right : List Tree}
    (one : Folds step a left b) (two : Folds step b right c) : Folds step a (left ++ right) c := by
  induction one with
  | nothing => exact two
  | child one more ih => exact .child one (ih two)

theorem childrenDone {scope : Container} {c c' : Cursor} (ended : nextChild scope c = .exhausted c') :
    children scope c = .done c' := by
  rw [children]
  split
  · rename_i same
    rw [ended] at same
    cases same
    rfl
  · rename_i other
    rw [ended] at other
    contradiction
  · rename_i other
    rw [ended] at other
    contradiction

theorem childrenChild {scope : Container} {c : Cursor} {h : Header}
    (found : nextChild scope c = .value h) :
    children scope c = .child h (children scope h.after) := by
  rw [children]
  split
  · rename_i other
    rw [found] at other
    contradiction
  · rename_i other
    rw [found] at other
    contradiction
  · rename_i same
    rw [found] at same
    cases same
    rfl

theorem Folds.runs {step : σ → Header → Except Halt σ} {a b : σ} {trees : List Tree}
    (folds : Folds step a trees b) {scope : Container}
    (formed : Tree.WellFormedAll (scope == .struct) trees) {bytes : Bytes}
    (written : Tree.encodeAll? trees = .ok bytes) (fits : bytes.length < 2 ^ 64) {c : Cursor}
    (sound : c.Sound) (ahead : c.rest = bytes) : (children scope c).fold step a = .ok b := by
  induction folds generalizing bytes c with
  | nothing =>
    cases written
    rw [childrenDone (Tree.childrenEnd sound ahead)]
    rfl
  | @child a b last t rest one more ih =>
    rw [Tree.encodeAllEach] at written
    obtain ⟨first, others, encoded, behind, rfl⟩ := Bytes.eachCons written
    rw [List.length_append] at fits
    obtain ⟨s, h, shape, next, found⟩ := Tree.childFound formed.1 encoded (by omega) sound ahead
    have less := Tree.bodyShorter encoded shape
    obtain ⟨after, left⟩ := found.behind
    rw [← Tree.encodeAllEach] at behind
    have later := ih formed.2 behind (by omega) after left
    have here := one ⟨s, c, first.length, others, shape, by omega, found⟩
    rw [childrenChild next]
    simp only [Children.fold, here, bind, Except.bind, later]

theorem smallInt64 {n : Nat} (fits : n ≤ Sid.last) : int64? n = some (Int64.ofInt n) := by
  have last : Sid.last = 4294967295 := rfl
  unfold int64?
  rw [if_pos]
  omega

theorem smallInt64Back {n : Nat} (fits : n ≤ Sid.last) : (Int64.ofInt n).toInt = n := by
  have last : Sid.last = 4294967295 := rfl
  rw [Int64.toInt_ofInt_of_le] <;> omega

namespace Header.Is

variable {h : Header}

theorem fold {field : Option Nat} {sids : List Nat} {kind : Container} {trees : List Tree}
    (is : h.Is (.container field sids kind trees)) {step : σ → Header → Except Halt σ} {a b : σ}
    (formed : Tree.WellFormedAll (kind == .struct) trees) (folds : Folds step a trees b) :
    h.fold kind a step = .ok b := by
  obtain ⟨s, c, size, more, shape, fits, found⟩ := is
  obtain ⟨written, _⟩ := found.children shape
  have short : h.payload.length < 2 ^ 64 := by
    rw [found.payload]
    exact fits
  rw [Header.fold, folds.runs formed written short found.inner rfl]
  rfl

theorem container {field : Option Nat} {sids : List Nat} {kind : Container} {trees : List Tree}
    (is : h.Is (.container field sids kind trees)) :
    h.type = kind.type ∧ h.field = field ∧ h.isNull = false := by
  obtain ⟨s, c, size, more, shape, _, found⟩ := is
  exact ⟨found.type, found.field, (found.children shape).2⟩

theorem atom {field : Option Nat} {sids : List Nat} {a : Atom} (is : h.Is (.atom field sids a)) :
    h.type = a.type ∧ h.field = field ∧ h.isNull = a.isNull := by
  obtain ⟨s, c, size, more, shape, _, found⟩ := is
  exact ⟨found.type, found.field, found.isNull shape⟩

theorem text {field : Option Nat} {sids : List Nat} {text : String}
    (is : h.Is (.atom field sids (.string text))) : h.decode Payload.text = .ok text := by
  obtain ⟨s, c, size, more, shape, _, found⟩ := is
  cases shape
  have payload := found.payload
  rw [Shape.typedBody] at payload
  rw [Header.decode, payload, Payload.textReads]
  rfl

theorem symbol {field : Option Nat} {sids : List Nat} {sid : Nat}
    (is : h.Is (.atom field sids (.symbol sid))) (fits : sid < 2 ^ 32) :
    h.decode Payload.symbol = .ok sid := by
  obtain ⟨s, c, size, more, shape, _, found⟩ := is
  cases shape
  have payload := found.payload
  rw [Shape.typedBody] at payload
  rw [Header.decode, payload, Payload.symbolReads fits]
  rfl

theorem number {field : Option Nat} {sids : List Nat} {n : Nat}
    (is : h.Is (.atom field sids (.int n))) (fits : n ≤ Sid.last) :
    ImportEntry.number? h = some (Int64.ofInt n) := by
  obtain ⟨s, c, size, more, shape, _, found⟩ := is
  cases shape
  have payload := found.payload
  rw [Shape.typedBody] at payload
  rw [ImportEntry.number?, found.highInt, payload, Payload.intReads]
  dsimp only
  rw [Variant.long?, Payload.integerOfScalar, Option.bind_some]
  exact smallInt64 fits

end Header.Is

structure SharedTable.Importable (catalog : Catalog) (t : SharedTable) : Prop where
  named : ¬(t.name = "" ∨ t.name = "$ion")
  version : 1 ≤ t.version ∧ t.version ≤ Sid.last
  known : catalog.version? t.name t.version = some t

namespace TableTree

theorem formedIff {member : Bool} {trees : List Tree} :
    Tree.WellFormedAll member trees ↔ ∀ t ∈ trees, t.WellFormed member := by
  induction trees with
  | nil => simp [Tree.WellFormedAll]
  | cons t rest ih => simp [Tree.WellFormedAll, ih]

theorem namedMember {sid : Nat} (fits : sid ≤ Sid.last) : Tree.Named true (some sid) [] :=
  ⟨rfl, Nat.zero_le _, by simpa using fits, by simp⟩

theorem unnamed : Tree.Named false none [] := ⟨rfl, Nat.zero_le _, by simp, by simp⟩

theorem listFormed {sid : Nat} (fits : sid ≤ Sid.last) {items : List α} {tree : α → Tree}
    (each : ∀ a, (tree a).WellFormed false) :
    Tree.WellFormedAll true (listMember sid (items.map tree)) := by
  unfold listMember
  split
  · trivial
  · refine ⟨⟨namedMember fits, formedIff.mpr fun t mem => ?_⟩, trivial⟩
    obtain ⟨a, _, rfl⟩ := List.mem_map.mp mem
    exact each a

theorem importFormed (l : Layer) : (importEntry l).WellFormed false :=
  ⟨unnamed, ⟨namedMember (by decide), trivial⟩, ⟨namedMember (by decide), trivial⟩,
    ⟨namedMember (by decide), trivial⟩, trivial⟩

theorem symbolFormed (slot : Option String) : (symbolEntry slot).WellFormed false := by
  cases slot <;> exact ⟨unnamed, trivial⟩

theorem membersFormed (append : Bool) (imports : List Layer) (added : List (Option String)) :
    Tree.WellFormedAll true (members append imports added) := by
  unfold members
  rw [formedIff]
  intro t mem
  rcases List.mem_append.mp mem with first | second
  · cases append
    · exact formedIff.mp (listFormed (by decide) importFormed) t first
    · rw [if_pos rfl, List.mem_singleton] at first
      rw [first]
      have table : Sid.symbolTable ≤ Sid.last := by decide
      exact ⟨namedMember (by decide), table⟩
  · exact formedIff.mp (listFormed (by decide) symbolFormed) t second

theorem formed (append : Bool) (imports : List Layer) (added : List (Option String)) :
    (whole append imports added).WellFormed false :=
  ⟨⟨rfl, by decide, by simp, by simp [Sid.symbolTable, Sid.last]⟩, membersFormed append imports added⟩

theorem isTable (append : Bool) (imports : List Layer) (added : List (Option String)) :
    (whole append imports added).isTable = true := rfl

def entry (l : Layer) : ImportEntry :=
  ⟨some l.table.name, some (Int64.ofInt l.table.version), some (Int64.ofInt l.length)⟩

theorem importFolds {l : Layer} (version : l.table.version ≤ Sid.last) (length : l.length ≤ Sid.last) :
    Folds ImportEntry.member ⟨none, none, none⟩
      [.atom (some Sid.name) [] (.string l.table.name), .atom (some Sid.version) [] (.int l.table.version),
        .atom (some Sid.maxId) [] (.int l.length)] (entry l) := by
  refine .child (b := ⟨some l.table.name, none, none⟩) ?_
    (.child (b := ⟨some l.table.name, some (Int64.ofInt l.table.version), none⟩) ?_ (.child ?_ .nothing))
  · intro h is
    obtain ⟨type, field, null⟩ := is.atom
    have value : h.isNull = false := null
    simp only [ImportEntry.member, value, field, type, is.text, Atom.type]
    rfl
  · intro h is
    obtain ⟨type, field, null⟩ := is.atom
    have value : h.isNull = false := null
    simp only [ImportEntry.member, value, field, type, is.number version, Atom.type]
    rfl
  · intro h is
    obtain ⟨type, field, null⟩ := is.atom
    have value : h.isNull = false := null
    simp only [ImportEntry.member, value, field, type, is.number length, Atom.type]
    rfl

theorem collectFolds {imports : List Layer} (entries : List ImportEntry)
    (fit : ∀ l ∈ imports, l.table.version ≤ Sid.last ∧ l.length ≤ Sid.last) :
    Folds ImportEntry.collect entries (imports.map importEntry) (entries ++ imports.map entry) := by
  induction imports generalizing entries with
  | nil =>
    rw [List.map_nil, List.map_nil, List.append_nil]
    exact .nothing
  | cons l rest ih =>
    have bounds := fit l List.mem_cons_self
    have later := ih (entries ++ [entry l]) fun k mem => fit k (List.mem_cons_of_mem l mem)
    rw [List.append_assoc, List.singleton_append] at later
    refine .child ?_ later
    intro h is
    obtain ⟨type, _, value⟩ := is.container
    have fold := is.fold (importFormed l).2 (importFolds bounds.1 bounds.2)
    rw [ImportEntry.collect, if_pos ⟨type, value⟩, fold]
    rfl

theorem symbolFolds (added before : List (Option String)) :
    Folds TableEntry.symbol before (added.map symbolEntry) (before ++ added) := by
  induction added generalizing before with
  | nil =>
    rw [List.map_nil, List.append_nil]
    exact .nothing
  | cons slot rest ih =>
    have later := ih (before ++ [slot])
    rw [List.append_assoc, List.singleton_append] at later
    refine .child ?_ later
    intro h is
    obtain ⟨type, _, null⟩ := is.atom
    cases slot with
    | none =>
      have nothing : h.isNull = true := null
      simp [TableEntry.symbol, nothing]
    | some text =>
      have value : h.isNull = false := null
      have string : h.type = .string := type
      rw [TableEntry.symbol, if_pos ⟨string, value⟩, is.text]
      rfl

theorem listFolds {sid : Nat} {items : List α} {tree : α → Tree} {a b : TableEntry}
    (unchanged : items = [] → a = b)
    (one : ∀ {h : Header}, h.Is (.container (some sid) [] .list (items.map tree)) →
      TableEntry.member a h = .ok b) :
    Folds TableEntry.member a (listMember sid (items.map tree)) b := by
  unfold listMember
  cases items with
  | nil =>
    rw [unchanged rfl]
    exact .nothing
  | cons item rest =>
    simp only [List.map_cons, reduceCtorEq, if_false]
    exact .child one .nothing

def read (append : Bool) (imports : List Layer) (added : List (Option String)) : TableEntry :=
  ⟨append, if append then [] else imports.map entry, added⟩

theorem membersFold {append : Bool} {imports : List Layer} (added : List (Option String))
    (fit : ∀ l ∈ imports, l.table.version ≤ Sid.last ∧ l.length ≤ Sid.last) :
    Folds TableEntry.member ⟨false, [], []⟩ (members append imports added)
      (read append imports added) := by
  have listed : Folds TableEntry.member ⟨append, if append then [] else imports.map entry, []⟩
      (listMember Sid.symbols (added.map symbolEntry)) (read append imports added) := by
    refine listFolds (fun empty => by rw [read, empty]) fun is => ?_
    obtain ⟨type, field, value⟩ := is.container
    have fold := is.fold (formedIff.mpr fun t mem => ?_) (symbolFolds added [])
    · simp only [TableEntry.member, value, field, type, fold]
      rfl
    · obtain ⟨slot, _, rfl⟩ := List.mem_map.mp mem
      exact symbolFormed slot
  refine Folds.append ?_ listed
  cases append with
  | true =>
    refine .child ?_ .nothing
    intro h is
    obtain ⟨type, field, null⟩ := is.atom
    have value : h.isNull = false := null
    simp only [TableEntry.member, value, field, type, is.symbol (by decide), Atom.type]
    rfl
  | false =>
    refine listFolds (fun empty => by rw [empty]; rfl) fun is => ?_
    obtain ⟨type, field, value⟩ := is.container
    have fold := is.fold (formedIff.mpr fun t mem => ?_) (collectFolds [] fit)
    · simp only [TableEntry.member, value, field, type, fold]
      rfl
    · obtain ⟨l, _, rfl⟩ := List.mem_map.mp mem
      exact importFormed l

theorem usedVersion {l : Layer} (version : 1 ≤ l.table.version ∧ l.table.version ≤ Sid.last) :
    (entry l).usedVersion = l.table.version := by
  have back := smallInt64Back version.2
  simp only [ImportEntry.usedVersion, entry, back]
  rw [if_pos (by omega), Int.toNat_natCast]

theorem usedMaxId {l : Layer} (fits : l.length ≤ Sid.last) (name : String) :
    (entry l).usedMaxId name = .ok (some l.length) := by
  have back := smallInt64Back fits
  simp only [ImportEntry.usedMaxId, entry, back]
  rw [if_pos (by omega), Int.toNat_natCast]

theorem entryAdds {catalog : Catalog} {t : SharedTable} (importable : t.Importable catalog)
    {imports : Imports} (fits : imports.maxId + 1 + t.maxId ≤ Sid.last) :
    (entry (.whole t)).addTo catalog imports = .ok (imports.push (.whole t)) := by
  have length : (Layer.whole t).length ≤ Sid.last := by
    have same : (Layer.whole t).length = t.maxId := rfl
    omega
  have pushed : imports.push? (.whole t) = some (imports.push (.whole t)) := if_pos fits
  have layer : ImportEntry.layer catalog t.name t.version (some t.maxId) = .ok (.whole t) := by
    simp only [ImportEntry.layer, importable.known]
    rfl
  have version : (entry (.whole t)).usedVersion = t.version := usedVersion importable.version
  have maxId : (entry (.whole t)).usedMaxId t.name = .ok (some t.maxId) := usedMaxId length t.name
  have name : (entry (.whole t)).name = some t.name := rfl
  simp only [ImportEntry.addTo, name, if_neg importable.named, maxId, version, bind, Except.bind,
    layer, pushed]
  rfl

theorem entriesAdd {catalog : Catalog} {tables : List SharedTable}
    (importable : ∀ t ∈ tables, t.Importable catalog) {imports : Imports}
    (fits : imports.maxId + Layer.total (tables.map .whole) < Sid.last) :
    ((tables.map .whole).map entry).foldlM (ImportEntry.addTo catalog) imports =
      .ok ⟨imports.added ++ tables.map .whole⟩ := by
  induction tables generalizing imports with
  | nil => simp [pure, Except.pure]
  | cons t rest ih =>
    simp only [List.map_cons, Layer.total, Layer.whole] at fits
    have first := @entryAdds catalog t (importable t List.mem_cons_self) imports (by omega)
    have more := @ih (fun u mem => importable u (List.mem_cons_of_mem t mem)) (imports.push (.whole t))
      (by rw [Imports.maxIdPush]; simp only [Layer.whole]; omega)
    rw [List.map_cons, List.map_cons, List.foldlM_cons, first]
    rw [Imports.push, List.append_assoc] at more
    exact more

def base (append : Bool) (imports : Imports) (current : SymbolTable) : SymbolTable :=
  if append then current else .ofImports imports

theorem loads {catalog : Catalog} {tables : List SharedTable}
    (importable : ∀ t ∈ tables, t.Importable catalog) (chain : (Imports.ofTables tables).maxId < Sid.last)
    {append : Bool} {added : List (Option String)} {current : SymbolTable}
    (fits : (base append (.ofTables tables) current).maxId + added.length ≤ Sid.last) {h : Header}
    (is : h.Is (whole append (tables.map .whole) added)) :
    current.load catalog h =
      .ok { base append (.ofTables tables) current with
        locals := (base append (.ofTables tables) current).locals ++ added } := by
  have system : Imports.system.maxId = 9 := Imports.maxIdSystem
  have total : (Imports.ofTables tables).maxId =
      Imports.system.maxId + Layer.total (tables.map .whole) := by
    simp [Imports.maxId, Imports.layers, Imports.ofTables, Imports.system, Layer.total]
  have lengths : ∀ l ∈ tables.map Layer.whole, l.table.version ≤ Sid.last ∧ l.length ≤ Sid.last := by
    intro l mem
    have inside := Layer.lengthInside mem
    obtain ⟨t, known, rfl⟩ := List.mem_map.mp mem
    exact ⟨(importable t known).version.2, by omega⟩
  have read : TableEntry.read h = .ok (read append (tables.map .whole) added) :=
    is.fold (membersFormed append (tables.map .whole) added) (membersFold added lengths)
  have based : (TableTree.read append (tables.map .whole) added).base catalog current =
      .ok (base append (.ofTables tables) current) := by
    cases append with
    | true => rfl
    | false =>
      have all := @entriesAdd catalog tables importable .system (by omega)
      simp only [TableEntry.base, TableTree.read, Bool.false_eq_true, if_false, all]
      rfl
  have added' : (TableTree.read append (tables.map .whole) added).symbols = added := rfl
  simp only [SymbolTable.load, read, bind, Except.bind, TableEntry.install, based, added', if_pos fits]
  rfl
end TableTree

end Ion
