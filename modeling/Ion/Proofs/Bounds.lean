import Ion.Proofs.Acceptance
import Ion.Proofs.Slices

/-! What a reader can come to. Whatever is called, in any order and also after failures, a reader
stays in nested parts of its data, and everything that it can scan from there lies in the data. -/
namespace Ion

open Scan Grammar

/-- The places of a datagram that can be scanned from, in the containers around them: at its begin,
behind and inside what a scan found, and where a scan failed. -/
inductive Scanned (data : Bytes) : Option Container → Cursor → Prop
  | start : Scanned data none (.ofBytes data)
  | hidden {scope c c' found} (here : Scanned data scope c) (scan : anyItem scope c = .ok found c')
      (hidden : ∀ h, found ≠ .value h) : Scanned data scope c'
  | failed {scope c c' e} (here : Scanned data scope c) (scan : anyItem scope c = .error e c') :
      Scanned data scope c'
  | behind {scope c c' h} (here : Scanned data scope c) (scan : anyItem scope c = .ok (.value h) c') :
      Scanned data scope h.after
  | within {scope c c' h kind} (here : Scanned data scope c)
      (scan : anyItem scope c = .ok (.value h) c') (holds : h.container? = some kind) :
      Scanned data (some kind) h.body

def Header.FoundIn (data : Bytes) (scope : Option Container) (h : Header) : Prop :=
  ∃ c c', Scanned data scope c ∧ anyItem scope c = .ok (.value h) c'

variable {data : Bytes} {scope : Option Container} {c c' : Cursor} {h : Header}

theorem headerInside (inside : c.Inside data) (scan : anyItem scope c = .ok (.value h) c') :
    h.start = c' ∧ h.start.Inside data ∧ h.start.pos + h.length ≤ h.start.stop := by
  have spelled := anyItemTakes inside.sound scan
  have start : h.start = c' := by
    cases spelled
    rfl
  have at_ := inside.onward ((anyItemSafe scope c inside).ok scan)
  rw [← start] at at_
  have body : h.start.pos + (h.start.rest.take h.length).length = h.start.pos + h.length :=
    spelled.behind.1
  have sound : h.start.pos + h.start.rest.length = h.start.stop := at_.sound
  rw [List.length_take] at body
  exact ⟨start, at_, by omega⟩

theorem Scanned.inside (scanned : Scanned data scope c) : c.Inside data := by
  induction scanned with
  | start => exact Cursor.ofBytesInside data
  | hidden here scan hidden ih => exact ih.onward ((anyItemSafe _ _ ih).ok scan)
  | failed here scan ih => exact ih.onward ((anyItemSafe _ _ ih).error scan)
  | behind here scan ih =>
    obtain ⟨-, start, room⟩ := headerInside ih scan
    exact start.advance room
  | within here scan holds ih =>
    obtain ⟨-, start, room⟩ := headerInside ih scan
    exact start.part room

theorem Scanned.stays (scanned : Scanned data scope c) : Stays (anyItem scope) c :=
  anyItemSafe scope c scanned.inside

namespace Header.FoundIn

theorem room (found : h.FoundIn data scope) :
    h.start.Inside data ∧ h.start.pos + h.length ≤ h.start.stop := by
  obtain ⟨c, c', here, scan⟩ := found
  exact (headerInside here.inside scan).2

theorem payload (found : h.FoundIn data scope) :
    data.slice? h.start.pos h.after.pos = some h.payload :=
  found.room.1.part found.room.2

theorem behind (found : h.FoundIn data scope) : Scanned data scope h.after := by
  obtain ⟨c, c', here, scan⟩ := found
  exact .behind here scan

theorem within (found : h.FoundIn data scope) {kind : Container} (holds : h.container? = some kind) :
    Scanned data (some kind) h.body := by
  obtain ⟨c, c', here, scan⟩ := found
  exact .within here scan holds

end Header.FoundIn

inductive Enclosed (data : Bytes) : List Entered → Nat → Prop
  | top : Enclosed data [] data.length
  | inner {e outer stop} (ends : stop ≤ e.resume.pos)
      (scanned : Scanned data (Entered.innermost outer) e.resume)
      (around : Enclosed data outer e.resume.stop) : Enclosed data (e :: outer) stop

inductive Stands (data : Bytes) (inside : List Entered) : Position → Prop
  | before {c : Cursor} (scanned : Scanned data (Entered.innermost inside) c)
      (enclosed : Enclosed data inside c.stop) : Stands data inside (.before c)
  | exhausted {c : Cursor} (scanned : Scanned data (Entered.innermost inside) c)
      (enclosed : Enclosed data inside c.stop) : Stands data inside (.exhausted c)
  | on {h : Header} {decoded : Variant} (found : h.FoundIn data (Entered.innermost inside))
      (enclosed : Enclosed data inside h.start.stop)
      (cached : ∀ s, decoded = some s → h.scalar = .ok s) : Stands data inside (.on h decoded)

def Position.cursor : Position → Cursor
  | before c => c
  | on h _ => h.start
  | exhausted c => c

theorem Stands.enclosed {inside : List Entered} {position : Position}
    (stands : Stands data inside position) : Enclosed data inside position.cursor.stop := by
  cases stands with
  | before scanned enclosed | exhausted scanned enclosed | on found enclosed cached => exact enclosed

theorem Stands.cursor {inside : List Entered} {position : Position}
    (stands : Stands data inside position) : position.cursor.Inside data := by
  cases stands with
  | before scanned | exhausted scanned => exact scanned.inside
  | on found => exact found.room.1

theorem Stands.fresh {inside : List Entered} (found : h.FoundIn data (Entered.innermost inside))
    (enclosed : Enclosed data inside h.start.stop) : Stands data inside (.on h none) :=
  .on found enclosed nofun

theorem Enclosed.enter {outer : List Entered} (enclosed : Enclosed data outer h.start.stop)
    (found : h.FoundIn data (Entered.innermost outer)) (kind : Container) :
    Enclosed data (⟨kind, h.after⟩ :: outer) h.body.stop :=
  .inner (Nat.le_refl _) found.behind enclosed

def Step.position : Step → Position
  | exhausted c => .exhausted c
  | failed _ c => .before c
  | value h => .on h none

section

variable {kind : Container} {outer : List Entered} (entered : Entered.innermost outer = some kind)
include entered

theorem nextChildStands (scanned : Scanned data (some kind) c) (enclosed : Enclosed data outer c.stop) :
    Stands data outer (nextChild kind c).position := by
  fun_induction nextChild kind c with
  | case1 c ended => exact .exhausted (entered ▸ scanned) enclosed
  | case2 c inside e c' scan =>
    have scan := anyItemFails scan
    refine .before (entered ▸ .failed scanned scan) ?_
    rwa [(scanned.stays.error scan).stop]
  | case3 c inside c' scan ih =>
    have scan := anyItemInside scan
    refine ih (.hidden scanned scan TopItem.paddingHidden) ?_
    rwa [(scanned.stays.ok scan).stop]
  | case4 c inside h c' scan =>
    have scan := anyItemInside scan
    refine .fresh (entered ▸ ⟨c, c', scanned, scan⟩) ?_
    rwa [(headerInside scanned.inside scan).1, (scanned.stays.ok scan).stop]

theorem Children.foldStands {step : σ → Header → Except Halt σ}
    (steps : ∀ {s h halt}, h.FoundIn data (some kind) → Enclosed data outer h.start.stop →
      step s h = .error halt → Stands data (halt.inside ++ outer) halt.position)
    (scanned : Scanned data (some kind) c) (enclosed : Enclosed data outer c.stop) {s : σ} {halt : Halt}
    (failed : (children kind c).fold step s = .error halt) :
    Stands data (halt.inside ++ outer) halt.position := by
  have next := nextChildStands entered scanned enclosed
  fun_induction children kind c generalizing s with
  | case1 => contradiction
  | case2 c e c' walk =>
    cases failed
    rw [walk] at next
    exact next
  | case3 c h walk ih =>
    rw [walk] at next
    cases next with
    | on found enclosed cached =>
      rw [entered] at found
      cases first : step s h with
      | error halt' =>
        simp only [Children.fold, first, bind, Except.bind, Except.error.injEq] at failed
        subst failed
        exact steps found enclosed first
      | ok s' =>
        simp only [Children.fold, first, bind, Except.bind] at failed
        have behind := found.behind
        exact ih behind enclosed failed (nextChildStands entered behind enclosed)

end

variable {outer : List Entered} {halt : Halt}

theorem Header.decodeStands (found : h.FoundIn data (Entered.innermost outer))
    (enclosed : Enclosed data outer h.start.stop) {decode : Bytes → Except IonError α}
    (failed : h.decode decode = .error halt) : Stands data (halt.inside ++ outer) halt.position := by
  obtain ⟨e, -, rfl⟩ := mapErrorFailed failed
  exact .fresh found enclosed

theorem Header.foldStands (found : h.FoundIn data (Entered.innermost outer))
    (enclosed : Enclosed data outer h.start.stop) {kind : Container} (something : h.isNull = false)
    (holds : h.type.container? = some kind) {init : σ} {step : σ → Header → Except Halt σ}
    (steps : ∀ {s child halt}, child.FoundIn data (some kind) →
      Enclosed data (⟨kind, h.after⟩ :: outer) child.start.stop → step s child = .error halt →
        Stands data (halt.inside ++ ⟨kind, h.after⟩ :: outer) halt.position)
    (failed : h.fold kind init step = .error halt) :
    Stands data (halt.inside ++ outer) halt.position := by
  obtain ⟨inner, walk, rfl⟩ := mapErrorFailed failed
  have stands := Children.foldStands rfl steps (found.within (h.holdsIff.mpr ⟨something, holds⟩))
    (enclosed.enter found kind) walk
  rw [Halt.within, List.append_assoc]
  exact stands

theorem ImportEntry.memberStands {entry : ImportEntry} (found : h.FoundIn data (Entered.innermost outer))
    (enclosed : Enclosed data outer h.start.stop) (failed : entry.member h = .error halt) :
    Stands data (halt.inside ++ outer) halt.position := by
  unfold member at failed
  dsimp only at failed
  split at failed
  · contradiction
  · split at failed
    · rcases exceptFailed failed with failed | ⟨_, -, failed⟩
      · exact h.decodeStands found enclosed failed
      · contradiction
    · split at failed
      · contradiction
      · split at failed <;> contradiction

theorem ImportEntry.collectStands {entries : List ImportEntry}
    (found : h.FoundIn data (Entered.innermost outer)) (enclosed : Enclosed data outer h.start.stop)
    (failed : collect entries h = .error halt) : Stands data (halt.inside ++ outer) halt.position := by
  unfold collect at failed
  split at failed
  · rename_i entry
    rcases exceptFailed failed with failed | ⟨_, -, failed⟩
    · exact h.foldStands found enclosed entry.2 (by rw [entry.1]; rfl)
        (fun child inner => memberStands child inner) failed
    · contradiction
  · contradiction

theorem TableEntry.symbolStands {symbols : List (Option String)}
    (found : h.FoundIn data (Entered.innermost outer)) (enclosed : Enclosed data outer h.start.stop)
    (failed : symbol symbols h = .error halt) : Stands data (halt.inside ++ outer) halt.position := by
  unfold symbol at failed
  split at failed
  · rcases exceptFailed failed with failed | ⟨_, -, failed⟩
    · exact h.decodeStands found enclosed failed
    · contradiction
  · contradiction

theorem TableEntry.memberStands {entry : TableEntry} (found : h.FoundIn data (Entered.innermost outer))
    (enclosed : Enclosed data outer h.start.stop) (failed : entry.member h = .error halt) :
    Stands data (halt.inside ++ outer) halt.position := by
  unfold member at failed
  dsimp only at failed
  split at failed
  · contradiction
  · rename_i something
    have something : h.isNull = false := by simpa using something
    split at failed
    · rcases exceptFailed failed with failed | ⟨_, -, failed⟩
      · exact h.decodeStands found enclosed failed
      · contradiction
    · split at failed
      · rename_i list
        rcases exceptFailed failed with failed | ⟨_, -, failed⟩
        · exact h.foldStands found enclosed something (by rw [list.2]; rfl)
            (fun child inner => ImportEntry.collectStands child inner) failed
        · contradiction
      · split at failed
        · rename_i list
          rcases exceptFailed failed with failed | ⟨_, -, failed⟩
          · exact h.foldStands found enclosed something (by rw [list.2]; rfl)
              (fun child inner => symbolStands child inner) failed
          · contradiction
        · contradiction

theorem SymbolTable.loadStands {catalog : Catalog} {current : SymbolTable} (table : h.isTable = true)
    (found : h.FoundIn data none) (enclosed : Enclosed data [] h.start.stop)
    (failed : current.load catalog h = .error halt) : Stands data halt.inside halt.position := by
  have is : (h.type = .struct ∧ h.isNull = false) ∧ h.annotations.head? = some Sid.symbolTable := by
    simpa [Header.isTable] using table
  rcases exceptFailed failed with failed | ⟨entry, -, failed⟩
  · rw [← List.append_nil halt.inside]
    exact h.foldStands found enclosed is.1.2 (by rw [is.1.1]; rfl)
      (fun child inner => TableEntry.memberStands child inner) failed
  · obtain ⟨fault, -, rfl⟩ := mapErrorFailed failed
    exact .before found.behind enclosed

def TopStep.Stands (data : Bytes) : TopStep → Prop
  | exhausted c => Ion.Stands data [] (.exhausted c)
  | halted halt => Ion.Stands data halt.inside halt.position
  | value h => Ion.Stands data [] (.on h none)

theorem nextTopStands (catalog : Catalog) (symbols : SymbolTable) (scanned : Scanned data none c)
    (enclosed : Enclosed data [] c.stop) : (nextTop catalog symbols c).2.Stands data := by
  have stop {c c' : Cursor} {h : Header} (scanned : Scanned data none c)
      (scan : anyItem none c = .ok (.value h) c') : h.start.stop = c.stop := by
    rw [(headerInside scanned.inside scan).1, (scanned.stays.ok scan).stop]
  fun_induction nextTop catalog symbols c with
  | case1 symbols c ended => exact .exhausted scanned enclosed
  | case2 symbols c inside e c' scan =>
    refine .before (.failed scanned scan) ?_
    rwa [(scanned.stays.error scan).stop]
  | case3 symbols c inside c' scan ih =>
    refine ih (.hidden scanned scan TopItem.markerHidden) ?_
    rwa [(scanned.stays.ok scan).stop]
  | case4 symbols c inside c' scan ih =>
    refine ih (.hidden scanned scan TopItem.paddingHidden) ?_
    rwa [(scanned.stays.ok scan).stop]
  | case5 symbols c inside h c' scan table loaded load ih =>
    refine ih (.behind scanned scan) ?_
    have same := stop scanned scan
    rwa [← same] at enclosed
  | case6 symbols c inside h c' scan table halt load =>
    rw [← stop scanned scan] at enclosed
    exact SymbolTable.loadStands table ⟨c, c', scanned, scan⟩ enclosed load
  | case7 symbols c inside h c' scan table =>
    rw [← stop scanned scan] at enclosed
    exact .fresh ⟨c, c', scanned, scan⟩ enclosed

namespace Reader

inductive Request
  | next
  | stepIn
  | stepOut
  | bool
  | int
  | long
  | integer
  | double
  | decimal
  | timestamp
  | string
  | integerSize
  deriving DecidableEq, Repr

def left (call : Call α) (r : Reader) : Reader :=
  match call r with
  | .ok _ r' => r'
  | .error _ r' => r'

def perform (r : Reader) : Request → Reader
  | .next => left next r
  | .stepIn => left stepIn r
  | .stepOut => left stepOut r
  | .bool => left bool r
  | .int => left int r
  | .long => left long r
  | .integer => left integer r
  | .double => left double r
  | .decimal => left decimal r
  | .timestamp => left timestamp r
  | .string => left string r
  | .integerSize => left integerSize r

def Sited (data : Bytes) (r : Reader) : Prop := Stands data r.inside r.position

variable {r : Reader}

theorem advanceSited (scanned : Scanned data r.scope c) (enclosed : Enclosed data r.inside c.stop) :
    (left (advance c) r).Sited data := by
  unfold left advance
  cases inside : r.inside with
  | nil =>
    rw [Reader.scope, inside] at scanned
    rw [inside] at enclosed
    have stands := nextTopStands r.catalog r.symbols scanned enclosed
    dsimp only
    cases walk : nextTop r.catalog r.symbols c with
    | mk symbols step =>
      rw [walk] at stands
      cases step with
      | exhausted c' | value h => exact stands
      | halted halt =>
        have frames : (r.halt halt).inside = halt.inside := by
          rw [Reader.halt, inside, List.append_nil]
        have stands : Stands data halt.inside halt.position := stands
        rw [← frames] at stands
        exact stands
  | cons entered outer =>
    rw [Reader.scope, inside] at scanned
    rw [inside] at enclosed
    have stands := nextChildStands rfl scanned enclosed
    dsimp only
    cases walk : nextChild entered.container c with
    | exhausted c' | failed e c' | value h =>
      rw [walk] at stands
      exact stands

theorem nextSited (sited : r.Sited data) : (left next r).Sited data := by
  cases position : r.position with
  | before c =>
    have same : left next r = left (advance c) r := by simp only [left, next, position]
    rw [Sited, position] at sited
    cases sited with
    | before scanned enclosed =>
      rw [same]
      exact advanceSited scanned enclosed
  | exhausted c =>
    have same : left next r = r := by simp only [left, next, position]
    rwa [same]
  | on h decoded =>
    have same : left next r = left (advance h.after) r := by simp only [left, next, position]
    rw [Sited, position] at sited
    cases sited with
    | on found enclosed cached =>
      rw [same]
      exact advanceSited found.behind enclosed

theorem currentAt (current : r.current? = some h) : ∃ decoded, r.position = .on h decoded := by
  unfold current? at current
  split at current <;> cases current
  exact ⟨_, ‹_›⟩

theorem stepInSited (sited : r.Sited data) : (left stepIn r).Sited data := by
  unfold left stepIn
  cases current : r.current? with
  | none => exact sited
  | some h =>
    obtain ⟨decoded, position⟩ := currentAt current
    dsimp only
    cases holds : h.type.container? with
    | none => exact sited
    | some kind =>
      cases something : h.isNull with
      | true => exact sited
      | false =>
        rw [Sited, position] at sited
        cases sited with
        | on found enclosed cached =>
          exact .before (found.within (h.holdsIff.mpr ⟨something, holds⟩)) (enclosed.enter found kind)

theorem stepOutSited (sited : r.Sited data) : (left stepOut r).Sited data := by
  unfold left stepOut
  cases inside : r.inside with
  | nil => exact sited
  | cons entered outer =>
    have enclosed := Stands.enclosed sited
    rw [inside] at enclosed
    cases enclosed with
    | inner ends scanned around => exact .before scanned around

theorem headerCurrent {expected : Expectation} (asked : r.header expected = .ok h) :
    r.current? = some h := by
  unfold header at asked
  split at asked
  · contradiction
  · rename_i current
    split at asked
    · split at asked <;> cases asked
      exact current
    · contradiction

theorem scalarSited (type : ValueType) (sited : r.Sited data) : (left (scalar type) r).Sited data := by
  unfold left scalar
  cases asked : r.header (.type type) with
  | error e => exact sited
  | ok h =>
    obtain ⟨decoded, position⟩ := currentAt (headerCurrent asked)
    cases decoded with
    | some s =>
      simp only [position]
      exact sited
    | none =>
      simp only [position]
      cases said : h.scalar with
      | error e => exact sited
      | ok s =>
        rw [Sited, position] at sited
        cases sited with
        | on found enclosed cached =>
          exact .on found enclosed fun s' same => by cases same; exact said

theorem gettingSited (type : ValueType) (get : Variant → Option α) (e : IonError)
    (sited : r.Sited data) : (left (getting type get e) r).Sited data := by
  have same : left (getting type get e) r = left (scalar type) r := by
    simp only [left, getting, bind, EStateM.bind]
    cases scalar type r with
    | error e' r' => rfl
    | ok decoded r' =>
      dsimp only
      cases get decoded <;> rfl
  rw [same]
  exact scalarSited type sited

theorem integerSizeSited (sited : r.Sited data) : (left integerSize r).Sited data := by
  by_cases integer : r.currentType? = some .int ∧ r.currentIsNull = false
  · have same : left integerSize r = left (scalar .int) r := by
      simp only [left, integerSize, if_pos integer, bind, EStateM.bind]
      cases scalar .int r <;> rfl
    rw [same]
    exact scalarSited .int sited
  · have same : left integerSize r = r := by simp only [left, integerSize, if_neg integer]
    rwa [same]

theorem performSited (request : Request) (sited : r.Sited data) : (r.perform request).Sited data := by
  cases request with
  | next => exact nextSited sited
  | stepIn => exact stepInSited sited
  | stepOut => exact stepOutSited sited
  | integerSize => exact integerSizeSited sited
  | bool | int | long | integer | double | decimal | timestamp | string =>
    exact gettingSited _ _ _ sited

def ahead? (r : Reader) : Option Cursor :=
  match r.position with
  | .before c => some c
  | .on h _ => some h.after
  | .exhausted _ => none

theorem Sited.ahead (sited : r.Sited data) (next : r.ahead? = some c) : Scanned data r.scope c := by
  unfold Sited at sited
  unfold ahead? at next
  split at next <;> rename_i position <;> cases next <;> rw [position] at sited <;> cases sited
  · assumption
  · exact Header.FoundIn.behind ‹_›

theorem opensSited (catalog : Catalog) (marked : versionMarker.isPrefixOf data = true) :
    ∃ r, Reader.of catalog data = .ok r ∧ r.Sited data :=
  ⟨_, if_pos marked, .before .start .top⟩

end Reader

end Ion
