import Ion.Proofs.Rounds

/-! Where the scan of a container has come to. No call takes it back as long as the container is not left,
and each value that a step shows takes it further, so there are no more values than bytes. -/
namespace Ion

open Scan Dialogue Reader

def Position.reached : Position → Cursor
  | before c => c
  | on h _ => h.after
  | exhausted c => c

def Entered.reached (inner : List Entered) (position : Position) : Cursor :=
  (inner.getLast?.map resume).getD position.reached

theorem Entered.reachedNothing (position : Position) : reached [] position = position.reached := rfl

theorem Entered.reachedCons (e : Entered) (inner : List Entered) (position : Position) :
    reached (e :: inner) position = reached inner (.before e.resume) := by
  unfold reached
  rw [List.getLast?_cons]
  cases inner.getLast? <;> rfl

theorem Entered.reachedSame {position position' : Position} (same : position'.reached = position.reached)
    (inner : List Entered) : reached inner position' = reached inner position := by
  rw [reached, reached, same]

theorem Position.reachedKeeping (type : ValueType) (position : Position) :
    (position.keeping type).reached = position.reached := by
  cases position with
  | before | exhausted => rfl
  | on h decoded => cases decoded <;> rfl

namespace Cursor.Onward

variable {c c' : Cursor}

theorem pos (onward : c.Onward c') : c.pos ≤ c'.pos ∧ c'.pos ≤ c.stop := by
  obtain ⟨n, room, rfl⟩ := onward
  exact ⟨Nat.le_add_right _ _, room⟩

theorem further (onward : c.Onward c') (shorter : c'.rest.length < c.rest.length) : c.pos < c'.pos := by
  obtain ⟨n, room, rfl⟩ := onward
  simp only [advance, List.length_drop] at shorter ⊢
  omega

end Cursor.Onward

variable {data : Bytes} {c c' : Cursor} {h : Header}

theorem behindOnward (scope : Option Container) (inside : c.Inside data)
    (scan : anyItem scope c = .ok (.value h) c') : c.Onward h.after := by
  obtain ⟨start, -, room⟩ := headerInside inside scan
  have header := (anyItemSafe scope c inside).ok scan
  rw [← start] at header
  exact header.trans ⟨h.length, room, rfl⟩

theorem nextChildOnward (kind : Container) (inside : c.Inside data) :
    c.Onward (nextChild kind c).position.reached := by
  fun_induction nextChild kind c with
  | case1 c ended => exact .here inside
  | case2 c more e c' scan => exact (anyItemSafe _ c inside).error (anyItemFails scan)
  | case3 c more c' scan ih =>
    have passed := (anyItemSafe _ c inside).ok (anyItemInside scan)
    exact passed.trans (ih (inside.onward passed))
  | case4 c more h c' scan => exact behindOnward (some kind) inside (anyItemInside scan)

theorem SymbolTable.loadReached {catalog : Catalog} {current : SymbolTable} {halt : Halt}
    (failed : current.load catalog h = .error halt) : Entered.reached halt.inside halt.position = h.after := by
  rcases exceptFailed failed with failed | ⟨entry, -, failed⟩
  · obtain ⟨inner, -, rfl⟩ := mapErrorFailed failed
    simp [Halt.within, Entered.reached]
  · obtain ⟨fault, -, rfl⟩ := mapErrorFailed failed
    rfl

theorem nextTopOnward (catalog : Catalog) (symbols : SymbolTable) (inside : c.Inside data) :
    let step := (nextTop catalog symbols c).2
    c.Onward (Entered.reached step.inside step.position) := by
  fun_induction nextTop catalog symbols c with
  | case1 symbols c ended => exact .here inside
  | case2 symbols c more e c' scan => exact (anyItemSafe none c inside).error scan
  | case3 symbols c more c' scan ih | case4 symbols c more c' scan ih =>
    have passed := (anyItemSafe none c inside).ok scan
    exact passed.trans (ih (inside.onward passed))
  | case5 symbols c more h c' scan table loaded load ih =>
    have passed := behindOnward none inside scan
    exact passed.trans (ih (inside.onward passed))
  | case6 symbols c more h c' scan table halt load =>
    have passed := behindOnward none inside scan
    rwa [← SymbolTable.loadReached load] at passed
  | case7 symbols c more h c' scan table => exact behindOnward none inside scan

theorem Enclosed.resumes {inside : List Entered} {stop : Nat} (enclosed : Enclosed data inside stop)
    {e : Entered} (entered : e ∈ inside) : e.resume.Inside data := by
  induction enclosed with
  | top => contradiction
  | inner ends scanned around ih =>
    rcases List.mem_cons.mp entered with rfl | outer
    · exact scanned.inside
    · exact ih outer

namespace Reader

variable {r : Reader} {inner outer : List Entered}

theorem Sited.reached (sited : r.Sited data) : r.position.reached.Inside data := by
  unfold Sited at sited
  generalize r.position = position at sited ⊢
  cases sited with
  | before scanned | exhausted scanned => exact scanned.inside
  | on found => exact found.behind.inside

theorem Sited.reachedAround (sited : r.Sited data) (split : r.inside = inner ++ outer) :
    (Entered.reached inner r.position).Inside data := by
  unfold Entered.reached
  cases last : inner.getLast? with
  | none => exact sited.reached
  | some e =>
    have entered : e ∈ r.inside := by
      rw [split]
      exact List.mem_append_left _ (List.mem_of_getLast? last)
    exact (Stands.enclosed sited).resumes entered

/-- The reader is in these containers, or deeper. The scan of the innermost of them was at `c` and is there
or further on. -/
def Keeps (outer : List Entered) (c : Cursor) (r : Reader) : Prop :=
  ∃ inner, r.inside = inner ++ outer ∧ c.Onward (Entered.reached inner r.position)

theorem aheadReached (ahead : r.ahead? = some c) : r.position.reached = c := by
  unfold ahead? at ahead
  split at ahead <;> cases ahead <;> rename_i stands <;> rw [stands] <;> rfl

theorem entranceResumes {e : Entered} {body : Cursor} (entrance : r.entrance? = some (e, body)) :
    e.resume = r.position.reached := by
  obtain ⟨h, current, kind⟩ := Option.bind_eq_some_iff.mp entrance
  obtain ⟨decoded, stands⟩ := currentAt current
  obtain ⟨kind, -, enters⟩ := Option.map_eq_some_iff.mp kind
  cases enters
  rw [stands]
  rfl

section

variable (sited : r.Sited data) (split : r.inside = inner ++ outer)
include sited split

theorem unmoved {s : Reader} {inner' : List Entered} (inside : s.inside = inner' ++ outer)
    (same : Entered.reached inner' s.position = Entered.reached inner r.position) :
    Keeps outer (Entered.reached inner r.position) s :=
  ⟨inner', inside, by rw [same]; exact .here (sited.reachedAround split)⟩

theorem nextKeeps : Keeps outer (Entered.reached inner r.position) (r.ask (.call .next)).2 := by
  cases inner with
  | cons e rest =>
    obtain ⟨position, left⟩ := askNextStays split
    rw [left]
    exact unmoved sited split split (by rw [Entered.reachedCons, Entered.reachedCons])
  | nil =>
    cases ahead : r.ahead? with
    | none =>
      rw [askNextEnded ahead]
      exact unmoved sited split split rfl
    | some c =>
      have inside := sited.reached
      rw [Entered.reachedNothing]
      rw [aheadReached ahead] at inside ⊢
      cases outer with
      | nil =>
        rw [askNextTop split ahead]
        exact ⟨_, (List.append_nil _).symm, nextTopOnward r.catalog r.symbols inside⟩
      | cons e outer =>
        rw [askNextWithin split ahead]
        exact ⟨[], split, nextChildOnward e.container inside⟩

theorem stepInKeeps : Keeps outer (Entered.reached inner r.position) (r.ask (.call .stepIn)).2 := by
  rw [askStepIn]
  cases entrance : r.entrance? with
  | none => exact unmoved sited split split rfl
  | some entrance' =>
    obtain ⟨e, body⟩ := entrance'
    refine unmoved sited split (show _ = e :: inner ++ outer from congrArg (e :: ·) split) ?_
    rw [Entered.reachedCons]
    have resumes : (Position.before e.resume).reached = r.position.reached := entranceResumes entrance
    exact Entered.reachedSame resumes inner

theorem stepOutKeeps (deep : outer.length ≤ (r.ask (.call .stepOut)).2.depth) :
    Keeps outer (Entered.reached inner r.position) (r.ask (.call .stepOut)).2 := by
  rw [askStepOut] at deep ⊢
  cases inner with
  | cons e rest =>
    rw [split] at deep ⊢
    exact unmoved sited split rfl (Entered.reachedCons ..).symm
  | nil =>
    cases outer with
    | nil =>
      rw [split]
      exact unmoved sited split split rfl
    | cons e outer =>
      rw [split] at deep
      exact absurd deep (Nat.not_succ_le_self _)

theorem stillKeeps {query : Query} (still : query.Still) :
    Keeps outer (Entered.reached inner r.position) (r.ask query).2 := by
  rw [askStill still]
  refine unmoved sited split split (Entered.reachedSame ?_ inner)
  unfold Query.leaves
  cases query.decodes? with
  | none => rfl
  | some asked => exact Position.reachedKeeping asked r.position

theorem askKeeps (query : Query) (deep : outer.length ≤ (r.ask query).2.depth) :
    Keeps outer (Entered.reached inner r.position) (r.ask query).2 := by
  obtain rfl | standing := query.nextOrStanding
  · exact nextKeeps sited split
  cases standing with
  | stepIn => exact stepInKeeps sited split
  | stepOut => exact stepOutKeeps sited split deep
  | still still => exact stillKeeps sited split still

end

theorem unreadReached (r : Reader) : r.unread ≤ r.position.reached.rest.length := by
  cases ahead : r.ahead? with
  | none => simp [unread, ahead]
  | some c => exact Nat.le_of_eq (by rw [unreadAhead ahead, aheadReached ahead])

theorem nextOnward (sited : r.Sited data) : Keeps r.inside r.position.reached (r.ask (.call .next)).2 :=
  nextKeeps sited (show r.inside = [] ++ r.inside from rfl)

theorem nextFurther {on : Reader} {type : ValueType} (sited : r.Sited data)
    (found : next r = .ok (some type) on) :
    ∃ h, on.current? = some h ∧ h.type = type ∧ on.inside = r.inside ∧ on.position.reached = h.after ∧
      r.position.reached.Onward h.after ∧ r.position.reached.pos < h.after.pos := by
  obtain ⟨h, known, stands, -⟩ := nextFinds found
  have inside := nextInside found
  have reached : on.position.reached = h.after := by rw [stands]; rfl
  have left : (r.ask (.call .next)).2 = on := by simp only [ask, perform, Reader.left, found]
  obtain ⟨inner, split, onward⟩ := nextOnward sited
  rw [left, inside] at split
  cases List.self_eq_append_left.mp split
  rw [Entered.reachedNothing, left, reached] at onward
  have read := nextReads found
  have there := unreadReached r
  rw [unreadAhead (r := on) (by rw [ahead?, stands])] at read
  exact ⟨h, by rw [current?, stands], known, inside, reached, onward, onward.further (by omega)⟩

def Answer.shows : Answer → Bool
  | type found => found.isSome
  | _ => false

def showing (depth : Nat) (r : Reader) (query : Query) : Nat :=
  if query = .call .next ∧ r.depth = depth ∧ (r.ask query).1.shows = true then 1 else 0

def surfaced (depth : Nat) (r : Reader) : List Query → Nat
  | [] => 0
  | query :: rest => showing depth r query + surfaced depth (r.ask query).2 rest

theorem nextShown (shows : (r.ask (.call .next)).1.shows = true) :
    ∃ type, next r = .ok (some type) (r.ask (.call .next)).2 := by
  simp only [ask, reply, answered, perform, left] at shows ⊢
  cases ran : next r with
  | error e s => simp [ran, Answer.shows] at shows
  | ok found s =>
    cases found with
    | none => simp [ran, Answer.shows] at shows
    | some type => exact ⟨type, rfl⟩

theorem askCosts (sited : r.Sited data) (split : r.inside = inner ++ outer) (query : Query)
    (deep : outer.length ≤ (r.ask query).2.depth) :
    ∃ inner', (r.ask query).2.inside = inner' ++ outer ∧
      showing outer.length r query + (Entered.reached inner' (r.ask query).2.position).remaining ≤
        (Entered.reached inner r.position).remaining := by
  obtain ⟨inner', split', onward⟩ := askKeeps sited split query deep
  have stop := onward.stop
  have pos := onward.pos
  refine ⟨inner', split', ?_⟩
  unfold showing Cursor.remaining
  split
  · rename_i shown
    obtain ⟨rfl, here, shows⟩ := shown
    obtain ⟨type, found⟩ := nextShown shows
    obtain ⟨h, -, -, inside, reached, -, further⟩ := nextFurther sited found
    have innermost : inner = [] := by
      rw [depth, split, List.length_append] at here
      exact List.length_eq_zero_iff.mp (by omega)
    have innermost' : inner' = [] := by
      rw [split', split, innermost] at inside
      exact List.append_left_eq_self.mp inside
    subst innermost innermost'
    rw [Entered.reachedNothing, Entered.reachedNothing, reached] at stop pos ⊢
    omega
  · omega

theorem surfacedFew (sited : r.Sited data) (split : r.inside = inner ++ outer) {calls : List Query}
    (deep : Along ask (fun s query => outer.length ≤ (s.ask query).2.depth) r calls) :
    surfaced outer.length r calls ≤ (Entered.reached inner r.position).remaining := by
  induction calls generalizing r inner with
  | nil => exact Nat.zero_le _
  | cons query rest ih =>
    obtain ⟨inner', split', costs⟩ := askCosts sited split query deep.1
    have later := ih (askSited sited query) split' deep.2
    unfold surfaced
    omega

theorem stepsStay (sited : r.Sited data) {depth : Nat} (deep : depth ≤ r.depth) (n : Nat) :
    Along ask (fun s query => depth ≤ (s.ask query).2.depth) r (List.replicate n (.call .next)) := by
  induction n generalizing r with
  | zero => trivial
  | succ n ih =>
    obtain ⟨inner, split, -⟩ := nextOnward sited
    have deeper : depth ≤ (r.ask (.call .next)).2.depth := by
      rw [Reader.depth] at deep
      rw [Reader.depth, split, List.length_append]
      omega
    exact ⟨deeper, ih (askSited sited _) deeper⟩

theorem Sited.unread (sited : r.Sited data) : r.unread ≤ r.position.reached.remaining := by
  have sound : _ = _ := sited.reached.sound
  have few := unreadReached r
  unfold Cursor.remaining
  omega

theorem Sited.sweepEnds (sited : r.Sited data) {rounds : Nat} (enough : r.unread < rounds) :
    (∃ shown s, r.Walks shown s ∧ sweepIn rounds r = some (.ok () s)) ∨
      ∃ e s, r.Breaks e ∧ sweepIn rounds r = some (.error e s) := by
  cases ahead : r.ahead? with
  | some c =>
    refine Reader.sweepEnds (c := c) ⟨by simp only [nextAhead, ahead], ?_⟩ enough
    exact (sited.ahead ahead).inside.sound
  | none =>
    have ended : next r = .ok none r := by simp only [nextAhead, ahead]
    obtain _ | rounds := rounds
    · contradiction
    exact .inl ⟨[], r, .done ended, by rw [sweepStep enough, ended]⟩

end Reader

/-- Whatever was called before, the loops of a step end within one round more than there are bytes left of the
container. A value that the step shows ends behind the place where the scan was before the step, whatever was
passed over, so calls that do not leave the container see no more values in it than there are bytes left, nor
does a loop of steps alone; and stepping through every value of every container that is left ends. -/
theorem readingEnds {catalog : Catalog} {data : Bytes} {opened : Reader}
    (opens : Reader.of catalog data = .ok opened) (calls : List Query) :
    let r := after ask opened calls
    let c := r.position.reached
    (∀ rounds, c.remaining < rounds → nextIn rounds r = some (next r)) ∧
      (∀ type on, next r = .ok (some type) on → ∃ h, on.current? = some h ∧ h.type = type ∧
        c.pos < h.after.pos ∧ h.after.pos ≤ c.stop) ∧
      (∀ more, Along ask (fun s query => r.depth ≤ (s.ask query).2.depth) r more →
        surfaced r.depth r more ≤ c.remaining) ∧
      (∀ n, surfaced r.depth r (List.replicate n (.call .next)) ≤ c.remaining) ∧
      ∀ rounds, c.remaining < rounds →
        (∃ shown s, r.Walks shown s ∧ sweepIn rounds r = some (.ok () s)) ∨
          ∃ e s, r.Breaks e ∧ sweepIn rounds r = some (.error e s) := by
  intro r c
  have sited : r.Sited data := reachedSited opens calls
  have few (more : List Query) (deep : Along ask (fun s query => r.depth ≤ (s.ask query).2.depth) r more) :
      surfaced r.depth r more ≤ c.remaining :=
    surfacedFew sited (show r.inside = [] ++ r.inside from rfl) deep
  refine ⟨fun rounds enough => ?_, fun type on found => ?_, few, fun n => ?_, fun rounds enough => ?_⟩
  · exact nextSuffices (Nat.lt_of_le_of_lt sited.unread enough)
  · obtain ⟨h, current, known, -, -, onward, further⟩ := nextFurther sited found
    exact ⟨h, current, known, further, onward.pos.2⟩
  · exact few _ (stepsStay sited (Nat.le_refl _) n)
  · exact sited.sweepEnds (Nat.lt_of_le_of_lt sited.unread enough)

theorem readingEndsPastTable :
    let data : Bytes := [0xE0, 0x01, 0x00, 0xEA, 0xE0, 0x01, 0x00, 0xEA, 0x00, 0xE5, 0x81, 0x83, 0xD2, 0x87,
      0xB0, 0xB3, 0x20, 0x00, 0x20]
    let opened : Reader := ⟨.empty, .system, [], .before (.ofBytes data)⟩
    let inner := after ask opened [.call .next, .call .stepIn]
    let visits : List Query := [.call .next, .call .stepIn, .call .next, .call .int, .call .stepOut, .call .next]
    Reader.of .empty data = .ok opened ∧
      (opened.position.reached.remaining = 19 ∧ nextIn 20 opened = some (next opened) ∧
        (opened.ask (.call .next)).1 = .type (some .list) ∧
        (∃ type on h, next opened = .ok (some type) on ∧ on.current? = some h ∧ 0 < h.after.pos) ∧
        Along ask (fun s query => opened.depth ≤ (s.ask query).2.depth) opened visits ∧
        surfaced opened.depth opened visits ≤ 19) ∧
      inner.position.reached.remaining = 3 ∧ surfaced inner.depth inner (List.replicate 4 (.call .next)) ≤ 3 ∧
      answers ask inner (List.replicate 4 (.call .next)) =
        [.type (some .int), .type (some .int), .type none, .type none] ∧
      ∃ shown s, inner.Walks shown s ∧ sweepIn 4 inner = some (.ok () s) := by
  intro data opened inner visits
  have opens : Reader.of .empty data = .ok opened := rfl
  have alone : opened.position.reached.remaining = 19 ∧ inner.position.reached.remaining = 3 := by
    decide +kernel
  have deep : Along ask (fun s query => opened.depth ≤ (s.ask query).2.depth) opened visits := by
    simp only [Along, visits]
    decide +kernel
  have swept : (sweepIn 4 inner).any (fun result => result.casesOn (fun _ _ => true) fun _ _ => false) :=
    by decide +kernel
  obtain ⟨steps, shows, few, -, -⟩ := readingEnds opens []
  obtain ⟨-, -, -, loops, sweeps⟩ := readingEnds opens [.call .next, .call .stepIn]
  refine ⟨opens, ⟨alone.1, steps 20 (by decide), by decide +kernel, ?_, deep, few visits deep⟩, alone.2,
    Nat.le_trans (loops 4) (Nat.le_of_eq alone.2), by decide +kernel, ?_⟩
  · obtain ⟨type, found⟩ := nextShown (r := opened) (by decide +kernel)
    obtain ⟨h, current, -, further, -⟩ := shows type _ found
    exact ⟨type, _, h, found, current, further⟩
  · rcases sweeps 4 (Nat.lt_succ_of_le (Nat.le_of_eq alone.2)) with done | ⟨e, s, -, failed⟩
    · exact done
    · change sweepIn 4 inner = _ at failed
      rw [failed] at swept
      contradiction

end Ion
