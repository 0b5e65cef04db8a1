import Ion.Proofs.Displacement
import Ion.Proofs.Loading

/-! The loops of a reader with a bound on their rounds. A round that goes on takes at least one byte of
what is ahead, so one round more than there are bytes ahead is enough for every loop, also for those that
load a symbol table in the middle of a step. -/
namespace Ion

open Scan

namespace Reader

def Timed (α : Type) := Reader → Option (EStateM.Result IonError Reader α)

namespace Timed

def of (call : Call α) : Timed α := fun r => some (call r)

def out : Timed α := fun _ => none

instance : Monad Timed where
  pure a := of (pure a)
  bind call later := fun r =>
    match call r with
    | some (.ok a s) => later a s
    | some (.error e s) => some (.error e s)
    | none => none

end Timed

def eachIn (step : Timed (Option ValueType)) (visit : σ → ValueType → Timed σ) : Nat → σ → Timed σ
  | 0, _ => .out
  | rounds + 1, s => do
    match ← step with
    | none => return s
    | some type => eachIn step visit rounds (← visit s type)

def enteringIn (step : Timed (Option ValueType)) (visit : σ → ValueType → Timed σ) (rounds : Nat)
    (s : σ) : Timed σ := do
  .of stepIn
  let s ← eachIn step visit rounds s
  .of stepOut
  return s

def importEntriesIn (step : Timed (Option ValueType)) (rounds : Nat) (entries : List ImportEntry)
    (type : ValueType) : Timed (List ImportEntry) := do
  let r ← .of get
  if type = .struct ∧ r.currentIsNull = false then
    let entry ← enteringIn step (fun s type => .of (importMember.run s type)) rounds ⟨none, none, none⟩
    return entries ++ [entry]
  else return entries

def tableMemberIn (step : Timed (Option ValueType)) (rounds : Nat) (entry : TableEntry) (type : ValueType) :
    Timed TableEntry := do
  let r ← .of get
  if r.currentIsNull then return entry
  else if r.field? = some Sid.imports ∧ type = .symbol then
    return { entry with append := (← .of symbolToken).sid == some Sid.symbolTable }
  else if r.field? = some Sid.imports ∧ type = .list then
    return { entry with imports := ← enteringIn step (importEntriesIn step rounds) rounds [] }
  else if r.field? = some Sid.symbols ∧ type = .list then
    return { entry with
      symbols := ← enteringIn step (fun s type => .of (localSymbols.run s type)) rounds [] }
  else return entry

def loadTableIn (step : Timed (Option ValueType)) (rounds : Nat) : Timed Unit := do
  .of (install (← enteringIn step (tableMemberIn step rounds) rounds ⟨false, [], []⟩))

def nextIn : Nat → Timed (Option ValueType)
  | 0 => .out
  | rounds + 1 => fun r =>
    match r.ahead? with
    | none => some (.ok none r)
    | some c =>
      if c.atEnd then some (.ok none { r with position := .exhausted c })
      else
        match anyItem r.scope c with
        | .error e c' =>
          some (.error (if r.inside = [] then e else childError c.pos e) { r with position := .before c' })
        | .ok .marker c' => nextIn rounds { r with symbols := .system, position := .before c' }
        | .ok .padding c' => nextIn rounds { r with position := .before c' }
        | .ok (.value h) _ =>
          if r.inside = [] ∧ h.isTable = true then
            (do
              loadTableIn (nextIn rounds) rounds
              nextIn rounds : Timed (Option ValueType)) { r with position := .on h none }
          else some (.ok (some h.type) { r with position := .on h none })

def sweepIn : Nat → Timed Unit
  | 0 => .out
  | rounds + 1 => do
    match ← nextIn (rounds + 1) with
    | none => return ()
    | some type =>
      if type.container?.isSome ∧ (← .of get).currentIsNull = false then
        .of stepIn
        sweepIn rounds
        .of stepOut
      sweepIn rounds

variable {r on : Reader} {c c' : Cursor}

theorem nextEnded (ahead : r.ahead? = some c) (ended : c.atEnd = true) :
    next r = .ok none { r with position := .exhausted c } := by
  obtain ⟨catalog, symbols, inside, position⟩ := r
  cases inside with
  | nil =>
    have walk : nextTop catalog symbols c = (symbols, .exhausted c) := by rw [nextTop, if_pos ended]
    simp only [nextAhead, ahead, advance, walk]
  | cons e outer =>
    have walk : nextChild e.container c = .exhausted c := by rw [nextChild, if_pos ended]
    simp only [nextWithin rfl ahead, walk]

theorem itemFailed {kind : Container} {e : IonError} (scan : anyItem (some kind) c = .error e c') :
    item (some kind) c = .error e c' := by
  rcases bindFailed scan with failed | ⟨_, _, -, failed⟩
  · exact failed
  · contradiction

theorem nextFailed (ahead : r.ahead? = some c) (more : ¬c.atEnd) {e : IonError}
    (scan : anyItem r.scope c = .error e c') :
    next r = .error (if r.inside = [] then e else childError c.pos e) { r with position := .before c' } := by
  obtain ⟨catalog, symbols, inside, position⟩ := r
  cases inside with
  | nil =>
    have walk := nextTopFails more scan catalog symbols
    simp only [nextAhead, ahead, advance, walk]
    rfl
  | cons e outer =>
    have walk : nextChild e.container c = _ := nextChildStep more
    rw [itemFailed scan] at walk
    simp only [nextWithin rfl ahead, walk]
    rfl

theorem nextFound (ahead : r.ahead? = some c) (more : ¬c.atEnd) {found : TopItem}
    (scan : anyItem r.scope c = .ok found c') :
    next r = match found with
      | .marker => next { r with symbols := .system, position := .before c' }
      | .padding => next { r with position := .before c' }
      | .value h =>
        if r.inside = [] ∧ h.isTable = true then
          (do
            loadTable
            next : Call (Option ValueType)) { r with position := .on h none }
        else .ok (some h.type) { r with position := .on h none } := by
  obtain ⟨catalog, symbols, inside, position⟩ := r
  cases inside with
  | nil =>
    have walk := nextTopScanned scan catalog symbols
    cases found with
    | marker | padding =>
      simp only [nextAhead, ahead, advance, walk]
      rfl
    | value h =>
      dsimp only at walk ⊢
      by_cases table : h.isTable = true
      · rw [if_pos ⟨rfl, table⟩, nextLoads rfl ahead scan table]
      · rw [if_neg fun both => table both.2]
        rw [if_neg table] at walk
        simp only [nextAhead, ahead, advance, walk]
  | cons e outer =>
    obtain ⟨item, c1, read, same⟩ := bindOk scan
    cases same
    have walk : nextChild e.container c = _ := nextChildStep more
    rw [read] at walk
    cases item with
    | none =>
      simp only [nextWithin rfl ahead, walk, TopItem.ofItem]
      rw [nextWithin rfl rfl]
    | some h =>
      simp only [nextWithin rfl ahead, walk, TopItem.ofItem]
      rw [if_neg fun both => List.cons_ne_nil _ _ both.1]

def Suffices (timed : Timed α) (call : Call α) (r : Reader) : Prop := timed r = some (call r)

def Fits (bound : Nat) (r : Reader) : Prop := ∀ h, r.current? = some h → h.payload.length < bound

namespace Suffices

variable {timed : Timed α} {call : Call α}

theorem plain (call : Call α) (r : Reader) : Suffices (.of call) call r := rfl

theorem bind {timedLater : α → Timed β} {later : α → Call β} (first : Suffices timed call r)
    (second : ∀ a s, call r = .ok a s → Suffices (timedLater a) (later a) s) :
    Suffices (timed >>= timedLater) (call >>= later) r := by
  unfold Suffices at *
  simp only [Bind.bind, EStateM.bind, first]
  cases ran : call r with
  | error e s => rfl
  | ok a s => exact second a s ran

theorem map (first : Suffices timed call r) (f : α → β) :
    Suffices (do return f (← timed)) (do return f (← call)) r :=
  first.bind fun _ _ _ => rfl

theorem got {timedNext : Reader → Timed α} {next : Reader → Call α}
    (here : Suffices (timedNext r) (next r) r) :
    Suffices (do timedNext (← .of get)) (do next (← get)) r := here

theorem either {condition : Prop} [Decidable condition] {timedOther : Timed α} {other : Call α}
    (first : condition → Suffices timed call r) (second : ¬condition → Suffices timedOther other r) :
    Suffices (if condition then timed else timedOther) (if condition then call else other) r := by
  split
  · exact first ‹_›
  · exact second ‹_›

end Suffices

theorem unreadAhead (ahead : r.ahead? = some c) : r.unread = c.rest.length := by
  simp only [unread, ahead, Option.map_some, Option.getD_some]

theorem nextFinds {type : ValueType} (found : next r = .ok (some type) on) :
    ∃ h, h.type = type ∧ on.position = .on h none ∧ h.payload.length < r.unread := by
  rw [nextAhead] at found
  cases ahead : r.ahead? with
  | none => simp [ahead] at found
  | some c =>
    have step := r.advanced c
    simp only [ahead] at found
    rw [found] at step
    cases step with
    | @found h on meets stands =>
      rw [unreadAhead ahead]
      exact ⟨h, rfl, stands, meets.shorter.1⟩

theorem nextFits {type : ValueType} {bound : Nat} (found : next r = .ok (some type) on)
    (ahead : r.unread ≤ bound) : on.Fits bound := by
  obtain ⟨h, -, stands, shorter⟩ := nextFinds found
  intro h' current
  simp only [current?, stands, Option.some.injEq] at current
  subst current
  omega

section

variable {bound : Nat} {step : Timed (Option ValueType)}
  (steps : ∀ {r : Reader}, r.unread < bound → Suffices step next r)
include steps

theorem eachSuffices {visit : Visit σ} {timed : σ → ValueType → Timed σ}
    (visits : ∀ {s type} {r : Reader}, r.Fits bound → Suffices (timed s type) (visit.run s type) r)
    {rounds : Nat} (enough : r.unread < rounds) (within : r.unread < bound) (s : σ) :
    Suffices (eachIn step timed rounds s) (along visit s) r := by
  -- what is unread goes down with the rounds, as a visit comes back to the value
  induction rounds generalizing r s with
  | zero => contradiction
  | succ rounds ih =>
    unfold Suffices
    rw [alongStep]
    simp only [eachIn, Bind.bind, show step r = _ from steps within]
    cases found : next r with
    | error e r' => rfl
    | ok type on =>
      cases type with
      | none => rfl
      | some type =>
        simp only [show timed s type on = _ from visits (nextFits found (Nat.le_of_lt within))]
        cases ran : visit.run s type on with
        | error e r' => rfl
        | ok s' r' =>
          have read := nextReads found
          have same : r'.unread = on.unread := by rw [unread, (visit.stays _ _ _ _ _ ran).2, ← unread]
          exact ih (by omega) (by omega) s'

theorem enteringSuffices {visit : Visit σ} {timed : σ → ValueType → Timed σ}
    (visits : ∀ {s type} {r : Reader}, r.Fits bound → Suffices (timed s type) (visit.run s type) r)
    (fits : r.Fits bound) (s : σ) : Suffices (enteringIn step timed bound s) (entering visit s) r := by
  refine (Suffices.plain stepIn r).bind fun _ inner stepped => ?_
  obtain ⟨h, kind, current, entered⟩ := stepInOk stepped
  have body : inner.unread < bound := by
    rw [entered]
    exact fits h current
  exact (eachSuffices steps visits body body s).bind fun _ last _ =>
    (Suffices.plain stepOut last).bind fun _ _ _ => rfl

theorem importEntriesSuffices {entries : List ImportEntry} {type : ValueType} (fits : r.Fits bound) :
    Suffices (importEntriesIn step bound entries type) (importEntries.run entries type) r :=
  .got <| .either (fun _ => (enteringSuffices steps (fun _ => rfl) fits _).map _) fun _ => rfl

theorem tableMemberSuffices {entry : TableEntry} {type : ValueType} (fits : r.Fits bound) :
    Suffices (tableMemberIn step bound entry type) (tableMember.run entry type) r :=
  .got <| .either (fun _ => rfl) fun _ => .either (fun _ => (Suffices.plain symbolToken r).map _) fun _ =>
    .either (fun _ => (enteringSuffices steps (importEntriesSuffices steps) fits _).map _) fun _ =>
      .either (fun _ => (enteringSuffices steps (fun _ => rfl) fits _).map _) fun _ => rfl

theorem loadTableSuffices (fits : r.Fits bound) : Suffices (loadTableIn step bound) loadTable r :=
  (enteringSuffices steps (tableMemberSuffices steps) fits _).bind fun _ _ _ => rfl

end

theorem tableSuffices {h : Header} {rounds : Nat}
    (steps : ∀ {r : Reader}, r.unread < rounds → Suffices (nextIn rounds) next r)
    (on : r.position = .on h none) (table : h.isTable = true) (short : h.start.rest.length < rounds) :
    Suffices (do
      loadTableIn (nextIn rounds) rounds
      nextIn rounds) (do
      loadTable
      next) r := by
  have body := h.bodyShorter
  have behind := h.afterShorter
  have fits : r.Fits rounds := fun h' current => by
    simp only [current?, on, Option.some.injEq] at current
    subst current
    exact Nat.lt_of_le_of_lt body short
  refine (loadTableSuffices steps fits).bind fun _ s loaded => steps ?_
  obtain ⟨entry, -, -, left⟩ := loadOk on table loaded
  rw [left, unreadAhead rfl]
  omega

theorem nextSuffices {rounds : Nat} (enough : r.unread < rounds) : Suffices (nextIn rounds) next r := by
  induction rounds generalizing r with
  | zero => contradiction
  | succ rounds ih =>
    unfold Suffices nextIn
    cases ahead : r.ahead? with
    | none => rw [nextAhead, ahead]
    | some c =>
      rw [unreadAhead ahead] at enough
      dsimp only
      by_cases ended : c.atEnd = true
      · rw [if_pos ended, nextEnded ahead ended]
      rw [if_neg ended]
      cases scan : anyItem r.scope c with
      | error e c' => rw [nextFailed ahead ended scan]
      | ok found c' =>
        have shorter := anyItemShortens _ _ _ _ scan
        rw [nextFound ahead ended scan]
        cases found with
        | marker | padding => exact ih (by rw [unreadAhead rfl]; omega)
        | value h =>
          dsimp only
          by_cases table : r.inside = [] ∧ h.isTable = true
          · rw [if_pos table, if_pos table]
            have top : topItem c = .ok (.value h) c' := by rwa [scope, table.1] at scan
            have start := topItemAfter top
            exact tableSuffices ih rfl table.2 (by omega)
          · rw [if_neg table, if_neg table]

theorem sweepStep {rounds : Nat} (enough : r.unread < rounds + 1) :
    sweepIn (rounds + 1) r = match next r with
      | .error e s => some (.error e s)
      | .ok none s => some (.ok () s)
      | .ok (some type) on =>
        (if type.container?.isSome ∧ on.currentIsNull = false then do
            .of stepIn
            sweepIn rounds
            .of stepOut
            sweepIn rounds
          else sweepIn rounds : Timed Unit) on := by
  simp only [sweepIn, Bind.bind, show nextIn (rounds + 1) r = _ from nextSuffices enough]
  cases next r with
  | error e s => rfl
  | ok found on => cases found <;> rfl

section

variable {rounds : Nat} {type : ValueType} (enough : r.unread < rounds + 1)
  (found : next r = .ok (some type) on)
include enough found

theorem sweepLeaf (leaf : on.currentIsNull = true ∨ type.container? = none) :
    on.unread < rounds ∧ sweepIn (rounds + 1) r = sweepIn rounds on := by
  have read := nextReads found
  refine ⟨by omega, ?_⟩
  rw [sweepStep enough, found]
  refine congrFun (if_neg ?_) on
  rintro ⟨holds, something⟩
  rcases leaf with null | plain
  · rw [null] at something
    contradiction
  · rw [plain] at holds
    contradiction

theorem sweepInto {inner : Reader} (ahead : r.Ahead c) (enter : stepIn on = .ok () inner) :
    ∃ h kind, Enters on h kind inner ∧ inner.unread < rounds ∧ h.after.rest.length < rounds ∧
      sweepIn (rounds + 1) r = (do
        sweepIn rounds
        .of stepOut
        sweepIn rounds : Timed Unit) inner := by
  obtain ⟨h, rfl, meets, stands, inside⟩ := ahead.found found
  obtain ⟨kind, enters⟩ := enters stands (meets.behind ahead.sound) enter
  have holds := h.holdsIff.mp enters.holds
  have read := nextReads found
  rw [unreadAhead (r := on) (by rw [ahead?, stands])] at read
  have body : inner.unread < r.unread := by
    obtain ⟨h', _, current, entered⟩ := stepInOk enter
    rw [entered]
    exact nextFits found (Nat.le_refl _) h' current
  refine ⟨h, kind, enters, by omega, by omega, ?_⟩
  rw [sweepStep enough, found]
  dsimp only
  rw [if_pos ⟨by rw [holds.2]; rfl, by rw [nullOn stands, holds.1]⟩]
  simp only [Bind.bind, Timed.of, enter]

end

theorem Enters.leavesFewer {inner ended back : Reader} {h : Header} {kind : Container} {rounds : Nat}
    (enters : Enters on h kind inner) (behind : h.after.rest.length < rounds)
    (stays : ended.inside = inner.inside) (leave : stepOut ended = .ok () back) : back.unread < rounds := by
  simp only [stepOut, stays, enters.inside] at leave
  cases leave
  exact behind

theorem Walks.swept {shown : List Outline} {s : Reader} (walks : r.Walks shown s) (ahead : r.Ahead c)
    {rounds : Nat} (enough : r.unread < rounds) : sweepIn rounds r = some (.ok () s) := by
  induction walks generalizing c rounds with
  | done ended =>
    obtain _ | rounds := rounds
    · contradiction
    rw [sweepStep enough, ended]
  | leaf found leaf bears more ih =>
    obtain _ | rounds := rounds
    · contradiction
    obtain ⟨h, rfl, meets, stands, inside⟩ := ahead.found found
    obtain ⟨fewer, same⟩ := sweepLeaf enough found leaf
    rw [same]
    exact ih (aheadOn stands (meets.behind ahead.sound).2) fewer
  | container found something holds bears enter body leave more bodyIh moreIh =>
    obtain _ | rounds := rounds
    · contradiction
    obtain ⟨h, kind, enters, within, behind, same⟩ := sweepInto enough found ahead enter
    have stays := body.inside enters.ahead
    have later := moreIh (enters.leaves stays leave).1 (enters.leavesFewer behind stays leave)
    rw [same]
    simp only [Bind.bind, Timed.of, bodyIh enters.ahead within, leave, later]

theorem Breaks.swept {e : IonError} (breaks : r.Breaks e) (ahead : r.Ahead c) {rounds : Nat}
    (enough : r.unread < rounds) : ∃ s, sweepIn rounds r = some (.error e s) := by
  induction breaks generalizing c rounds with
  | next failed =>
    obtain _ | rounds := rounds
    · contradiction
    rw [sweepStep enough, failed]
    exact ⟨_, rfl⟩
  | leaf found leaf later ih =>
    obtain _ | rounds := rounds
    · contradiction
    obtain ⟨h, rfl, meets, stands, inside⟩ := ahead.found found
    obtain ⟨fewer, same⟩ := sweepLeaf enough found leaf
    rw [same]
    exact ih (aheadOn stands (meets.behind ahead.sound).2) fewer
  | enter found something holds failed =>
    obtain ⟨h, rfl, meets, stands, inside⟩ := ahead.found found
    rw [nullOn stands] at something
    obtain ⟨inner, enter⟩ := stepInRuns stands (h.holdsIff.mpr ⟨something, holds⟩)
    rw [failed] at enter
    contradiction
  | inside found enter broken ih =>
    obtain _ | rounds := rounds
    · contradiction
    obtain ⟨h, kind, enters, within, behind, same⟩ := sweepInto enough found ahead enter
    obtain ⟨s, broke⟩ := ih enters.ahead within
    refine ⟨s, ?_⟩
    rw [same]
    simp only [Bind.bind, broke]
  | leave found enter body failed =>
    obtain ⟨h, rfl, meets, stands, inside⟩ := ahead.found found
    obtain ⟨kind, enters⟩ := enters stands (meets.behind ahead.sound) enter
    obtain ⟨back, leave⟩ := stepOutRuns ((body.inside enters.ahead).trans enters.inside)
    rw [failed] at leave
    contradiction
  | behind found enter body leave later ih =>
    obtain _ | rounds := rounds
    · contradiction
    obtain ⟨h, kind, enters, within, behind, same⟩ := sweepInto enough found ahead enter
    have stays := body.inside enters.ahead
    obtain ⟨s, broke⟩ := ih (enters.leaves stays leave).1 (enters.leavesFewer behind stays leave)
    refine ⟨s, ?_⟩
    rw [same]
    simp only [Bind.bind, Timed.of, body.swept enters.ahead within, leave, broke]

theorem sweepEnds (ahead : r.Ahead c) {rounds : Nat} (enough : r.unread < rounds) :
    (∃ shown s, r.Walks shown s ∧ sweepIn rounds r = some (.ok () s)) ∨
      ∃ e s, r.Breaks e ∧ sweepIn rounds r = some (.error e s) := by
  obtain ⟨shown, s, walks⟩ | ⟨e, breaks⟩ := walksOrBreaks ahead
  · exact .inl ⟨shown, s, walks, walks.swept ahead enough⟩
  · obtain ⟨s, swept⟩ := breaks.swept ahead enough
    exact .inr ⟨e, s, breaks, swept⟩

end Reader

end Ion
