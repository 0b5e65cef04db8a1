import Ion.Proofs.Sessions
import Ion.Proofs.Transcoding

/-! Copying what a reader shows into a writer of whole datagrams, with the tokens that the reader
gives. A token of a reader carries its ID, and the writer takes an ID as it is: the copy has the same
IDs under other symbols, so only system symbols keep their text. -/
namespace Ion

def Atom.copyCall (token : Nat → SymbolToken) : Atom → SessionRequest
  | .symbol sid => .writeSymbolToken (token sid)
  | a => .write a

namespace Tree

def labelCalls (token : Nat → SymbolToken) (field : Option Nat) (sids : List Nat) :
    List SessionRequest :=
  (field.toList.map fun sid => .setFieldToken (token sid)) ++
    sids.map fun sid => .annotateToken (token sid)

mutual

def copyCalls (token : Nat → SymbolToken) : Tree → List SessionRequest
  | atom field sids a => labelCalls token field sids ++ [a.copyCall token]
  | container field sids kind children =>
    labelCalls token field sids ++ .stepIn kind.type :: (copyAllCalls token children ++ [.stepOut])

def copyAllCalls (token : Nat → SymbolToken) : List Tree → List SessionRequest
  | [] => []
  | t :: rest => t.copyCalls token ++ copyAllCalls token rest

end

end Tree

def Reader.copyCalls (items : List (SymbolTable × Tree)) : List SessionRequest :=
  items.flatMap fun (symbols, t) => t.copyCalls symbols.token

namespace SessionRequest

def Mirrors (request : SessionRequest) (call : SidRequest) : Prop :=
  ∀ w : SessionWriter, (w.user.perform call).1 = .done →
    w.perform request = (.done, { w with user := (w.user.perform call).2 })

theorem mirrorsResolved {request : SessionRequest} {call : SidRequest}
    (resolves : ∀ t, request.resolve t = some (call, t)) : request.Mirrors call :=
  fun w done => SessionWriter.performsResolved (resolves w.symbols) done

section Tokens

variable {token : SymbolToken} {sid : Nat} (known : token.sid = some sid)
include known

theorem fieldMirrors : Mirrors (.setFieldToken token) (.setField sid) := by
  obtain ⟨text, _⟩ := token
  cases known
  have alone : Mirrors (.setFieldToken ⟨none, some sid⟩) (.setField sid) :=
    mirrorsResolved fun _ => rfl
  exact alone

theorem annotationMirrors : Mirrors (.annotateToken token) (.annotate sid) := by
  obtain ⟨text, _⟩ := token
  cases known
  have alone : Mirrors (.annotateToken ⟨none, some sid⟩) (.annotate sid) :=
    mirrorsResolved fun _ => rfl
  exact alone

theorem symbolMirrors : Mirrors (.writeSymbolToken token) (.write (.symbol sid)) := by
  obtain ⟨text, _⟩ := token
  cases known
  have alone : Mirrors (.writeSymbolToken ⟨none, some sid⟩) (.write (.symbol sid)) :=
    mirrorsResolved fun _ => rfl
  exact alone

end Tokens

inductive Mirrored : List SessionRequest → List SidRequest → Prop
  | nothing : Mirrored [] []
  | first {request call rest calls} (one : Mirrors request call) (more : Mirrored rest calls) :
      Mirrored (request :: rest) (call :: calls)

namespace Mirrored

theorem append {left right : List SessionRequest} {calls calls' : List SidRequest}
    (one : Mirrored left calls) (two : Mirrored right calls') :
    Mirrored (left ++ right) (calls ++ calls') := by
  induction one with
  | nothing => exact two
  | first mirrors more ih => exact .first mirrors ih

theorem each {items : List α} {request : α → SessionRequest} {call : α → SidRequest}
    (one : ∀ a, Mirrors (request a) (call a)) : Mirrored (items.map request) (items.map call) := by
  induction items with
  | nil => exact .nothing
  | cons a rest ih => exact .first (one a) ih

theorem runs {requests : List SessionRequest} {calls : List SidRequest}
    (mirrored : Mirrored requests calls) {w : SessionWriter} {user : SidWriter}
    (below : Calls.Runs SidWriter.perform w.user calls user) :
    Calls.Runs SessionWriter.perform w requests { w with user } := by
  induction mirrored generalizing w with
  | nothing =>
    obtain ⟨rfl, _⟩ := below
    exact .nothing w
  | first one more ih =>
    obtain ⟨done, rest⟩ := below.begins
    exact .first (one w done) (ih rest)

end Mirrored

end SessionRequest

theorem SidRequest.annotatesAll {member : Bool} (sids : List Nat) {p : Pending Nat}
    (few : p.annotations.length + sids.length ≤ SidWriter.annotationLimit) :
    (sids.map SidRequest.annotate).foldlM (announce member) p =
      some { p with annotations := p.annotations ++ sids } := by
  induction sids generalizing p with
  | nil => simp
  | cons sid rest ih =>
    rw [List.length_cons] at few
    have first : announce member p (.annotate sid) =
        some { p with annotations := p.annotations ++ [sid] } := if_pos (by omega)
    have more := @ih { p with annotations := p.annotations ++ [sid] }
      (by rw [List.length_append, List.length_singleton]; omega)
    rw [List.map_cons, List.foldlM_cons, first]
    exact more.trans (by simp)

open SessionRequest

theorem Tree.labelsMirrored {token : Nat → SymbolToken} (identified : ∀ sid, (token sid).sid = some sid)
    {member : Bool} {field : Option Nat} {sids : List Nat} (named : Named member field sids) :
    ∃ before, Mirrored (labelCalls token field sids) before ∧
      SidRequest.announced member before = some ⟨field, sids⟩ := by
  have names : Mirrored (field.toList.map fun sid => .setFieldToken (token sid))
      (field.toList.map .setField) := .each fun sid => fieldMirrors (identified sid)
  have annotations : Mirrored (sids.map fun sid => .annotateToken (token sid))
      (sids.map .annotate) := .each fun sid => annotationMirrors (identified sid)
  refine ⟨_, names.append annotations, ?_⟩
  have few (field : Option Nat) : (sids.map .annotate).foldlM (SidRequest.announce member) ⟨field, []⟩ =
      some ⟨field, sids⟩ := SidRequest.annotatesAll sids (by simpa using named.few)
  have presence := named.named
  rw [SidRequest.announced, List.foldlM_append]
  cases field with
  | none => exact few none
  | some sid =>
    have first : SidRequest.announce member .nothing (.setField sid) = some ⟨some sid, []⟩ :=
      if_pos presence.symm
    have one : ([sid].map SidRequest.setField).foldlM (SidRequest.announce member) .nothing =
        some ⟨some sid, []⟩ := by
      rw [List.map_singleton, List.foldlM_cons, first]
      rfl
    rw [Option.toList_some, one]
    exact few (some sid)

theorem Atom.copyMirrors {token : Nat → SymbolToken} (identified : ∀ sid, (token sid).sid = some sid)
    (a : Atom) : Mirrors (a.copyCall token) (.write a) := by
  cases a with
  | symbol sid => exact symbolMirrors (identified sid)
  | null | bool | int | float | decimal | timestamp | string | clob | blob =>
    exact mirrorsResolved fun _ => rfl

theorem Tree.copyMirrored {token : Nat → SymbolToken} (identified : ∀ sid, (token sid).sid = some sid)
    (trees : List Tree) {member : Bool} (formed : WellFormedAll member trees) :
    ∃ calls, Mirrored (copyAllCalls token trees) calls ∧ Written member trees calls := by
  match trees with
  | [] => exact ⟨[], .nothing, .nothing⟩
  | .atom field sids a :: rest =>
    obtain ⟨before, labels, announced⟩ := labelsMirrored identified formed.1.1
    obtain ⟨after, mirrored, more⟩ := copyMirrored identified rest formed.2
    refine ⟨before ++ .write a :: after, ?_, .atom announced more⟩
    rw [copyAllCalls, copyCalls, List.append_assoc]
    exact labels.append (.first (a.copyMirrors identified) mirrored)
  | .container field sids kind children :: rest =>
    obtain ⟨before, labels, announced⟩ := labelsMirrored identified formed.1.1
    obtain ⟨calls, within, inner⟩ := copyMirrored identified children formed.1.2
    obtain ⟨after, mirrored, more⟩ := copyMirrored identified rest formed.2
    refine ⟨before ++ .stepIn kind.type :: (calls ++ .stepOut :: after), ?_,
      .container announced inner more⟩
    have enter : Mirrors (.stepIn kind.type) (.stepIn kind.type) := mirrorsResolved fun _ => rfl
    have leave : Mirrors .stepOut .stepOut := mirrorsResolved fun _ => rfl
    rw [copyAllCalls, copyCalls]
    have whole := labels.append (.first enter (within.append (.first leave mirrored)))
    simpa using whole

theorem Reader.copyMirrored (items : List (SymbolTable × Tree))
    (formed : Tree.WellFormedAll false (shown items)) :
    ∃ calls, Mirrored (copyCalls items) calls ∧ Tree.Written false (shown items) calls := by
  induction items with
  | nil => exact ⟨[], .nothing, .nothing⟩
  | cons item rest ih =>
    obtain ⟨symbols, t⟩ := item
    have identified (sid : Nat) : (symbols.token sid).sid = some sid := rfl
    obtain ⟨first, mirrored, written⟩ := Tree.copyMirrored identified [t] ⟨formed.1, trivial⟩
    obtain ⟨more, others, written'⟩ := ih formed.2
    rw [Tree.copyAllCalls, Tree.copyAllCalls, List.append_nil] at mirrored
    exact ⟨first ++ more, mirrored.append others, written.append written'⟩

theorem Layer.textBefore {layers : List Layer} {first sid : Nat} (before : sid < first) :
    (place first layers).findSome? (fun (first, l) => l.text? sid first) = none := by
  induction layers generalizing first with
  | nil => rfl
  | cons l rest ih =>
    have here : l.text? sid first = none := if_neg (by omega)
    have later := @ih (first + l.length) (by omega)
    simp only [place, List.findSome?_cons, here, later]

theorem Imports.systemText (i : Imports) {sid : Nat} (system : sid ≤ Imports.system.maxId) :
    i.text? sid = (Layer.whole .system).text? sid 1 := by
  have length : (Layer.whole .system).length = Imports.system.maxId := rfl
  have later := @Layer.textBefore i.added (1 + (Layer.whole .system).length) sid (by omega)
  simp only [text?, placed, layers, Layer.place, List.findSome?_cons, later]
  cases (Layer.whole .system).text? sid 1 <;> rfl

theorem SymbolTable.systemText (t : SymbolTable) (sid : Nat) :
    SymbolTable.system.text? sid = if sid ≤ Imports.system.maxId then t.text? sid else none := by
  by_cases system : sid ≤ Imports.system.maxId
  · have inside : sid ≤ t.imports.maxId := by
      have least : Imports.system.maxId ≤ t.imports.maxId := Nat.le_add_right _ _
      omega
    rw [if_pos system, text?, text?, if_pos inside, t.imports.systemText system]
    exact (if_pos system).trans (Imports.systemText .system system)
  · rw [if_neg system, text?]
    exact (if_neg system).trans (by simp [SymbolTable.system, ofImports])

theorem SessionWriter.Steady.finishes {w : SessionWriter} {tables : List SharedTable}
    (steady : w.Steady tables) {items : List Item}
    (user : Represents w.user ⟨items, [], none, [], false⟩) {head body : Bytes}
    (announced : Item.encodeAll? w.announcement = .ok head)
    (encoded : Item.encodeAll? items = .ok body) :
    ∃ after, (w.perform (.finish (.empty none false))).1 = .flushed (head ++ body).length after ∧
      after.received = head ++ body := by
  obtain ⟨head', announced', sends⟩ := steady.sends user.checks []
  cases announced.symm.trans announced'
  obtain ⟨below, sent⟩ :
      ∃ below, SidWriter.flush (w.user, ⟨none, false, head⟩) =
        .ok body.length (below, ⟨none, false, head ++ body⟩) := user.flushes rfl rfl encoded rfl
  obtain ⟨⟨w', after⟩, flushed⟩ := sends sent
  obtain ⟨_, _, head', body', -, -, -, announced', encoded', received⟩ := steady.flushed user flushed
  cases announced.symm.trans announced'
  cases encoded.symm.trans encoded'
  rw [← List.length_append] at flushed
  have finished := SessionWriter.finishRuns flushed
  exact ⟨after, congrArg Prod.fst (Reply.flushedIff.mpr finished), received⟩

/-- A copy by tokens always goes through and has the same values with the same IDs, but not the
symbols these had: system symbols keep their text and all others lose it. -/
theorem copyKeepsIds (catalog : Catalog) (data : Bytes) {r r' : Reader}
    {items : List (SymbolTable × Tree)} (opened : Reader.of catalog data = .ok r)
    (reads : r.Reads items r') (few : Tree.FewAll (Reader.shown items)) (blockSize : Nat) :
    let trees := Reader.shown items
    let w := Calls.after SessionWriter.perform (.empty blockSize []) (Reader.copyCalls items)
    (∀ reply ∈ Calls.replies SessionWriter.perform (.empty blockSize []) (Reader.copyCalls items),
      reply = .done) ∧
      (∃ body after, Tree.encodeAll? trees = .ok body ∧
        (w.perform (.finish (.empty none false))).1 = .flushed (versionMarker ++ body).length after ∧
          after.received = versionMarker ++ body ∧
            -- no byte string is longer than a machine word can say
            ((versionMarker ++ body).length < 2 ^ 64 → ∀ catalog',
              ∃ s s', Reader.of catalog' (versionMarker ++ body) = .ok s ∧
                s.Reads (trees.map fun t => (SymbolTable.system, t)) s')) ∧
        ∀ item ∈ items, ∀ sid, (SymbolTable.system.token sid).text =
          if sid ≤ Imports.system.maxId then (item.1.token sid).text else none := by
  intro trees w
  obtain ⟨ahead, top⟩ := Reader.opens opened
  obtain ⟨-, formed, plain⟩ := reads.formed ahead few
  rw [top] at formed plain
  obtain ⟨calls, mirrored, written⟩ := Reader.copyMirrored items formed
  obtain ⟨below, holds⟩ := written.holds formed blockSize
  let new : SessionWriter := .empty blockSize []
  have runs := mirrored.runs (w := new) ⟨rfl, below⟩
  have copied : w = { new with user := Calls.after SidWriter.perform new.user calls } := runs.1
  -- the symbols of a copy are the system symbols, which take no table
  have steady : w.Steady [] := by
    rw [copied]
    exact (SessionWriter.Steady.empty blockSize []).grown (.refl _) _
  have marker : Item.encodeAll? w.announcement = .ok versionMarker := by
    rw [copied]
    rfl
  have user : Represents w.user ⟨trees.map .value, [], none, [], false⟩ := by
    rw [copied]
    exact holds
  obtain ⟨body, encoded⟩ := Tree.encodes formed
  obtain ⟨after, finished, received⟩ :=
    steady.finishes user marker ((Item.valuesEncoded trees).trans encoded)
  exact ⟨runs.2, ⟨body, after, encoded, finished, received,
    fun fits catalog' => Tree.readBack catalog' formed (plain rfl) encoded fits⟩,
    fun item _ sid => item.1.systemText sid⟩

def declaredSymbols : Bytes :=
  [0xE0, 0x01, 0x00, 0xEA, 0xE7, 0x81, 0x83, 0xD4, 0x87, 0xB2, 0x81, 0x61, 0x71, 0x04, 0x71, 0x0A]

def declaredItems : List (SymbolTable × Tree) :=
  [4, 10].map fun sid => (⟨.system, [some "a"]⟩, .atom none [] (.symbol sid))

theorem declaredReads :
    ∃ r r', Reader.of .empty declaredSymbols = .ok r ∧ r.Reads declaredItems r' := by
  obtain ⟨r, opened⟩ : ∃ r, Reader.of .empty declaredSymbols = .ok r := ⟨_, rfl⟩
  have is : r = ⟨.empty, .system, [], .before (.ofBytes declaredSymbols)⟩ :=
    (Except.ok.inj opened).symm
  let on (start : Cursor) : Reader :=
    ⟨.empty, ⟨.system, [some "a"]⟩, [], .on ⟨0x71, .symbol, none, [], start, 1⟩ none⟩
  let one := on ⟨13, 16, [0x04, 0x71, 0x0A]⟩
  let two := on ⟨15, 16, [0x0A]⟩
  have found : r.next = .ok (some .symbol) one := by
    rw [is]
    decide +kernel
  have read : one.symbol = .ok (one.symbols.token 4) := rfl
  have found' : one.next = .ok (some .symbol) two := by decide +kernel
  have read' : two.symbol = .ok (two.symbols.token 10) := rfl
  have ended : two.next =
      .ok none ⟨.empty, ⟨.system, [some "a"]⟩, [], .exhausted ⟨16, 16, []⟩⟩ := by decide +kernel
  exact ⟨r, _, opened, .symbol found rfl ⟨rfl, rfl⟩ read
    (.symbol found' rfl ⟨rfl, rfl⟩ read' (.done ended))⟩

theorem copiesDeclaredSymbols :
    let copy : Bytes := versionMarker ++ [0x71, 0x04, 0x71, 0x0A]
    let w := Calls.after SessionWriter.perform (.empty 1 []) (Reader.copyCalls declaredItems)
    ∃ r r' after s s', Reader.of .empty declaredSymbols = .ok r ∧ r.Reads declaredItems r' ∧
      (w.perform (.finish (.empty none false))).1 = .flushed copy.length after ∧ after.received = copy ∧
        Reader.of .empty copy = .ok s ∧
          s.Reads ((Reader.shown declaredItems).map fun t => (SymbolTable.system, t)) s' := by
  intro copy w
  obtain ⟨r, r', opened, reads⟩ := declaredReads
  have few : Tree.FewAll (Reader.shown declaredItems) := ⟨Nat.zero_le _, Nat.zero_le _, trivial⟩
  obtain ⟨-, ⟨body, after, encoded, finished, received, again⟩, -⟩ :=
    copyKeepsIds .empty declaredSymbols opened reads few 1
  have shortest : (Tree.encodeAll? (Reader.shown declaredItems)).toOption =
      some [0x71, 0x04, 0x71, 0x0A] := by decide +kernel
  rw [encoded] at shortest
  cases shortest
  obtain ⟨s, s', opened', reads'⟩ := again (by decide) .empty
  exact ⟨r, r', after, s, s', opened, reads, finished, received, opened', reads'⟩

theorem copyLosesText :
    let copy : Bytes := versionMarker ++ [0x71, 0x04, 0x71, 0x0A]
    let w := Calls.after SessionWriter.perform (.empty 1 []) (Reader.copyCalls declaredItems)
    ∃ r r' s s' symbols, Reader.of .empty declaredSymbols = .ok r ∧ r.Reads declaredItems r' ∧
      declaredItems[1]? = some (symbols, .atom none [] (.symbol 10)) ∧
        (symbols.token 10).text = some "a" ∧
          (w.perform (.finish (.empty none false))).1 = .flushed copy.length ⟨none, false, copy⟩ ∧
            Reader.of .empty copy = .ok s ∧ (∃ items, s.Reads items s') ∧
              ∀ items s', s.Reads items s' → ∃ symbols',
                items[1]? = some (symbols', .atom none [] (.symbol 10)) ∧
                  (symbols'.token 10).text = none := by
  intro copy w
  obtain ⟨r, r', opened, reads⟩ := declaredReads
  have finished : (w.perform (.finish (.empty none false))).1 =
      .flushed copy.length ⟨none, false, copy⟩ := by decide +kernel
  have fits {sid : Nat} (small : sid ≤ Sid.last) :
      Tree.WellFormed false (.atom none [] (.symbol sid)) :=
    ⟨⟨rfl, by decide, by simp, by simp⟩, small⟩
  have formed : Tree.WellFormedAll false (Reader.shown declaredItems) :=
    ⟨fits (by decide), fits (by decide), trivial⟩
  obtain ⟨body, encoded⟩ := Tree.encodes formed
  have shortest : (Tree.encodeAll? (Reader.shown declaredItems)).toOption =
      some [0x71, 0x04, 0x71, 0x0A] := by decide +kernel
  rw [encoded] at shortest
  cases shortest
  have plain : ∀ t ∈ Reader.shown declaredItems, t.isTable = false := by decide
  obtain ⟨s, s', opened', again⟩ := Tree.readBack .empty formed plain encoded (by decide)
  refine ⟨r, r', s, s', ⟨.system, [some "a"]⟩, opened, reads, rfl, rfl, finished, opened', ⟨_, again⟩,
    fun items s'' other => ?_⟩
  rw [(other.unique again).1]
  exact ⟨.system, rfl, rfl⟩

end Ion
