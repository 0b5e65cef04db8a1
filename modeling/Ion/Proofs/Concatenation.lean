import Ion.Proofs.DisplacedReaders

/-! Datagrams one behind the other. A reader of both goes through the first as a reader of it alone does.
Where that one would end, the version marker of the second takes all symbols back, and from there on the
reader is a reader of the second at another place. -/
namespace Ion

open Scan

def Entered.followed (tail : Bytes) (e : Entered) : Entered := { e with resume := e.resume.followed tail }

def Entered.outermostFollowed (tail : Bytes) : List Entered → List Entered
  | [] => []
  | [e] => [e.followed tail]
  | e :: around :: outer => e :: outermostFollowed tail (around :: outer)

def Position.followed (tail : Bytes) : Position → Position
  | before c => before (c.followed tail)
  | on h decoded => on (h.followed tail) decoded
  | exhausted c => exhausted (c.followed tail)

def Reader.followed (tail : Bytes) (r : Reader) : Reader :=
  match r.inside with
  | [] => { r with position := r.position.followed tail }
  | e :: outer => { r with inside := Entered.outermostFollowed tail (e :: outer) }

variable {data tail : Bytes} {h : Header} {c : Cursor}

theorem Header.FoundIn.followed (found : h.FoundIn data none) (tail : Bytes) :
    (h.followed tail).body = h.body ∧ (h.followed tail).after = h.after.followed tail := by
  obtain ⟨c, c', here, scan⟩ := found
  exact headerFollowed here.inside.sound scan tail

theorem Header.FoundIn.followedAlike (found : h.FoundIn data none) (tail : Bytes) :
    h.Alike (h.followed tail) :=
  ⟨rfl, rfl, rfl, rfl, rfl, congrArg Cursor.rest (found.followed tail).1⟩

theorem Entered.followedLength (tail : Bytes) (inside : List Entered) :
    (outermostFollowed tail inside).length = inside.length := by
  fun_induction outermostFollowed tail inside with
  | case1 | case2 => rfl
  | case3 e around outer ih => exact congrArg (· + 1) ih

theorem Entered.followedHead (tail : Bytes) (e : Entered) (outer : List Entered) :
    ∃ e' outer', outermostFollowed tail (e :: outer) = e' :: outer' ∧ e'.container = e.container := by
  cases outer with
  | nil => exact ⟨_, _, rfl, rfl⟩
  | cons around outer => exact ⟨_, _, rfl, rfl⟩

def TopStep.Followed (catalog : Catalog) (tail : Bytes) (stop : Nat) (last : SymbolTable)
    (longer : SymbolTable × TopStep) : TopStep → Prop
  | exhausted c =>
    c.atEnd = true ∧ c.Sound ∧ c.stop = stop ∧ longer = nextTop catalog last (c.followed tail)
  | halted _ => True
  | value h => longer = (last, .value (h.followed tail))

theorem nextTopFollowed (catalog : Catalog) (symbols : SymbolTable) (sound : c.Sound) (tail : Bytes) :
    (nextTop catalog symbols c).2.Followed catalog tail c.stop (nextTop catalog symbols c).1
      (nextTop catalog symbols (c.followed tail)) := by
  fun_induction nextTop catalog symbols c with
  | case1 symbols c ended => exact ⟨ended, sound, rfl, rfl⟩
  | case2 => trivial
  | case3 symbols c inside c' scan ih | case4 symbols c inside c' scan ih =>
    have spelled := topItemTakes sound scan
    rw [nextTopScanned (topItemFollowed sound scan tail), ← spelled.stop]
    exact ih (spelled.sound sound)
  | case5 symbols c inside h c' scan table loaded loads ih =>
    have spelled := topItemTakes sound scan
    obtain ⟨body, after⟩ := headerFollowed sound scan tail
    rw [nextTopScanned (topItemFollowed sound scan tail), ← spelled.afterStop]
    have again : (h.followed tail).isTable = true := table
    dsimp only [TopItem.followed]
    rw [if_pos again, SymbolTable.loadSame body loads, after]
    exact ih spelled.behind.2
  | case6 => trivial
  | case7 symbols c inside h c' scan table =>
    rw [nextTopScanned (topItemFollowed sound scan tail)]
    exact if_neg table

theorem nextTopMarked {marked : Cursor} (sound : marked.Sound) (marker : versionMarker <+: marked.rest)
    (catalog : Catalog) (symbols symbols' : SymbolTable) :
    nextTop catalog symbols marked = nextTop catalog symbols' marked := by
  obtain ⟨more, ahead⟩ := marker
  have scan := takesMarker sound ahead.symm
  rw [nextTopScanned scan, nextTopScanned scan]

theorem Cursor.Sound.seam (sound : c.Sound) (ended : c.atEnd = true) (stop : c.stop = data.length)
    (tail : Bytes) : c.followed tail = (ofBytes tail).moved data.length := by
  have nothing := sound.atEnd.mp ended
  rw [Sound, nothing] at sound
  have pos : c.pos = data.length := by simpa [stop] using sound
  simp [followed, moved, ofBytes, nothing, pos, stop, Nat.add_comm]

theorem seamSound (k : Nat) (tail : Bytes) : ((Cursor.ofBytes tail).moved k).Sound := by
  simp [Cursor.Sound, Cursor.moved, Cursor.ofBytes, Nat.add_comm]

theorem Enclosed.stopTop {stop : Nat} (enclosed : Enclosed data [] stop) : stop = data.length := by
  cases enclosed
  rfl

namespace Reader

def topAhead? (r : Reader) : Option Cursor :=
  match r.inside.getLast? with
  | some e => some e.resume
  | none => r.ahead?

def AtEnd (r : Reader) : Prop := r.inside = [] ∧ r.phase = .exhausted

instance (r : Reader) : Decidable r.AtEnd := inferInstanceAs (Decidable (_ ∧ _))

structure OnTheWay (catalog : Catalog) (data : Bytes) (r : Reader) : Prop where
  fixed : r.catalog = catalog
  sited : r.Sited data
  clean c (ahead : r.topAhead? = some c) : (between catalog r.symbols c).sequence.failure = none
  going : ¬r.AtEnd

variable {catalog : Catalog} {r : Reader}

theorem topAheadTop (top : r.inside = []) : r.topAhead? = r.ahead? := by
  rw [topAhead?, top]
  rfl

theorem followedTop (top : r.inside = []) (tail : Bytes) :
    r.followed tail = { r with position := r.position.followed tail } := by
  rw [followed, top]

theorem Sited.foundTop (sited : r.Sited data) (top : r.inside = []) (current : r.current? = some h) :
    h.FoundIn data none := by
  obtain ⟨decoded, stands⟩ := currentAt current
  rw [Sited, stands, top] at sited
  cases sited with
  | on found enclosed cached => exact found

theorem Sited.aheadTop (sited : r.Sited data) (top : r.inside = []) (ahead : r.ahead? = some c) :
    c.Sound ∧ c.stop = data.length := by
  unfold ahead? at ahead
  split at ahead <;> rename_i stands <;> cases ahead <;> rw [Sited, stands, top] at sited <;> cases sited
  · rename_i scanned enclosed
    exact ⟨scanned.inside.sound, enclosed.stopTop⟩
  · rename_i found enclosed cached
    exact ⟨found.behind.inside.sound, enclosed.stopTop⟩

theorem leavesFollowed {position : Position} (found : ∀ h decoded, position = .on h decoded →
    h.FoundIn data none) (query : Query) (tail : Bytes) :
    query.leaves (position.followed tail) = (query.leaves position).followed tail := by
  unfold Query.leaves
  cases query.decodes? with
  | none => rfl
  | some type =>
    cases position with
    | before | exhausted => rfl
    | on h decoded =>
      cases decoded with
      | some => rfl
      | none =>
        have alike := (found h none rfl).followedAlike tail
        simp only [Position.followed, Position.keeping, alike.type, alike.isNull, alike.scalar]

theorem askFollowedWithin {e : Entered} {outer : List Entered} (inside : r.inside = e :: outer)
    (query : Query) (tail : Bytes) :
    (r.followed tail).ask query = ((r.ask query).1, (r.ask query).2.followed tail) := by
  obtain ⟨catalog, symbols, _, position⟩ := r
  subst inside
  let longer : Reader := ⟨catalog, symbols, Entered.outermostFollowed tail (e :: outer), position⟩
  change longer.ask query = _
  obtain rfl | standing := query.nextOrStanding
  · obtain ⟨e', outer', inside', container⟩ := Entered.followedHead tail e outer
    cases ahead : ahead? ⟨catalog, symbols, e :: outer, position⟩ with
    | none =>
      have ahead' : longer.ahead? = none := ahead
      rw [askNextEnded ahead, askNextEnded ahead']
      rfl
    | some c =>
      have ahead' : longer.ahead? = some c := ahead
      rw [askNextWithin rfl ahead, askNextWithin inside' ahead', container]
      rfl
  · have like : Like (fun _ => false) ⟨catalog, symbols, e :: outer, position⟩ longer :=
      ⟨Entered.followedLength tail (e :: outer), .refl _, fun _ _ => rfl⟩
    refine Prod.ext (like.answerSame standing) ?_
    cases standing with
    | stepIn =>
      have entrance : longer.entrance? = entrance? ⟨catalog, symbols, e :: outer, position⟩ := rfl
      rw [askStepIn, askStepIn, entrance]
      cases entrance? ⟨catalog, symbols, e :: outer, position⟩ <;> rfl
    | stepOut => cases outer <;> rfl
    | still still =>
      rw [askStill still, askStill still]
      rfl

section Top

variable (sited : r.Sited data) (top : r.inside = []) (tail : Bytes)
include sited top

theorem aheadFollowedTop : (r.followed tail).ahead? = r.ahead?.map (Cursor.followed tail) := by
  rw [followedTop top, ahead?, ahead?]
  cases stands : r.position with
  | before | exhausted => rfl
  | on h decoded =>
    have found := sited.foundTop top (by rw [current?, stands])
    exact congrArg some (found.followed tail).2

theorem entranceFollowedTop :
    (r.followed tail).entrance? = r.entrance?.map fun (e, body) => (e.followed tail, body) := by
  rw [followedTop top, entrance?, entrance?, current?, current?]
  cases stands : r.position with
  | before | exhausted => rfl
  | on h decoded =>
    obtain ⟨body, after⟩ := (sited.foundTop top (by rw [current?, stands])).followed tail
    have same : (h.followed tail).container? = h.container? := rfl
    simp only [Position.followed, Option.bind_some, same, body, after]
    cases h.container? <;> rfl

theorem followedLikeTop : Like (fun _ => false) r (r.followed tail) := by
  rw [followedTop top]
  refine ⟨rfl, ?_, fun _ _ => rfl⟩
  change r.position.Alike (r.position.followed tail)
  cases stands : r.position with
  | before => exact .before
  | exhausted => exact .exhausted
  | on h decoded =>
    have found := sited.foundTop top (by rw [current?, stands])
    exact .on (found.followedAlike tail) decoded

theorem askFollowedTop {query : Query}
    (finds : query = .call .next → ∃ type, (r.ask query).1 = .type (some type)) :
    (r.followed tail).ask query = ((r.ask query).1, (r.ask query).2.followed tail) := by
  have top' : (r.followed tail).inside = [] := by rw [followedTop top]; exact top
  obtain rfl | standing := query.nextOrStanding
  · obtain ⟨type, found⟩ := finds rfl
    cases ahead : r.ahead? with
    | none =>
      rw [askNextEnded ahead] at found
      cases found
    | some c =>
      have ahead' : (r.followed tail).ahead? = some (c.followed tail) := by
        rw [aheadFollowedTop sited top tail, ahead]
        rfl
      have sound := (sited.aheadTop top ahead).1
      have same := nextTopFollowed r.catalog r.symbols sound tail
      rw [askNextTop top ahead] at found ⊢
      rw [askNextTop top' ahead', followedTop top]
      dsimp only at found ⊢
      cases step : (nextTop r.catalog r.symbols c).2 with
      | exhausted | halted =>
        rw [step] at found
        cases found
      | value h =>
        rw [step] at same
        rw [same]
        rfl
  · refine Prod.ext ((followedLikeTop sited top tail).answerSame standing) ?_
    cases standing with
    | stepIn =>
      rw [askStepIn, askStepIn, entranceFollowedTop sited top tail]
      cases r.entrance? with
      | none => rfl
      | some entrance =>
        simp only [Option.map_some, top', top]
        rw [followedTop top]
        rfl
    | stepOut => rw [askStepOut, askStepOut, top', top]
    | still still =>
      have leaves : query.leaves (r.position.followed tail) = (query.leaves r.position).followed tail :=
        leavesFollowed (fun h decoded stands => sited.foundTop top (by rw [current?, stands])) query tail
      rw [askStill still, askStill still, followedTop top, leaves, followed, top]

end Top

theorem topAheadWithin (within : r.inside ≠ []) :
    r.topAhead? = r.inside.getLast?.map Entered.resume := by
  unfold topAhead?
  cases last : r.inside.getLast? with
  | none => exact absurd (List.getLast?_eq_none_iff.mp last) within
  | some e => rfl

theorem aheadLeaves (query : Query) (r : Reader) :
    ahead? { r with position := query.leaves r.position } = r.ahead? := by
  unfold ahead? Query.leaves
  cases query.decodes? with
  | none => rfl
  | some type =>
    cases r.position with
    | before | exhausted => rfl
    | on h decoded => cases decoded <;> rfl

theorem topAheadKept {query : Query} (stays : query = .call .next → r.inside ≠ []) :
    (r.ask query).2.catalog = r.catalog ∧ (r.ask query).2.symbols = r.symbols ∧
      (r.ask query).2.topAhead? = r.topAhead? := by
  obtain ⟨catalog, symbols, inside, position⟩ := r
  -- inside containers the outermost of them says it, whatever the position
  have within {e : Entered} {outer : List Entered} (position' : Position) :
      topAhead? ⟨catalog, symbols, e :: outer, position'⟩ =
        (e :: outer).getLast?.map Entered.resume := topAheadWithin (List.cons_ne_nil e outer)
  obtain rfl | standing := query.nextOrStanding
  · cases inside with
    | nil => exact absurd rfl (stays rfl)
    | cons e outer =>
      obtain ⟨position', left⟩ := askNextStays (r := ⟨catalog, symbols, e :: outer, position⟩) rfl
      rw [left]
      exact ⟨rfl, rfl, (within _).trans (within _).symm⟩
  cases standing with
  | stepIn =>
    rw [askStepIn]
    cases position with
    | before | exhausted => exact ⟨rfl, rfl, rfl⟩
    | on h decoded =>
      simp only [entrance?, current?, Option.bind_some]
      cases h.container? with
      | none => exact ⟨rfl, rfl, rfl⟩
      | some kind =>
        refine ⟨rfl, rfl, (within _).trans ?_⟩
        cases inside with
        | nil => rfl
        | cons e outer => rw [List.getLast?_cons_cons, within]
  | stepOut =>
    rw [askStepOut]
    cases inside with
    | nil => exact ⟨rfl, rfl, rfl⟩
    | cons e outer =>
      cases outer with
      | nil => exact ⟨rfl, rfl, rfl⟩
      | cons around outer =>
        refine ⟨rfl, rfl, (within _).trans ?_⟩
        rw [within, List.getLast?_cons_cons]
  | still still =>
    rw [askStill still]
    refine ⟨rfl, rfl, ?_⟩
    cases inside with
    | nil => exact aheadLeaves query ⟨catalog, symbols, [], position⟩
    | cons e outer => exact (within _).trans (within _).symm

theorem atEndTop (top : r.inside = []) (ahead : r.ahead? = none) : r.AtEnd := by
  refine ⟨top, ?_⟩
  cases stands : r.position with
  | before | on => simp [ahead?, stands] at ahead
  | exhausted => simp only [phase, stands]

theorem OnTheWay.step (way : r.OnTheWay catalog data) (top : r.inside = []) {c : Cursor}
    (ahead : r.ahead? = some c) :
    (∃ last h, nextTop catalog r.symbols c = (last, .value h) ∧
        (between catalog last h.after).sequence.failure = none) ∨
      ∃ last c', nextTop catalog r.symbols c = (last, .exhausted c') := by
  have clean := way.clean c ((topAheadTop top).trans ahead)
  rw [sequenceBetween] at clean
  cases walk : nextTop catalog r.symbols c with
  | mk last step =>
    rw [walk] at clean
    cases step with
    | exhausted c' => exact .inr ⟨last, c', rfl⟩
    | halted halt => contradiction
    | value h => exact .inl ⟨last, h, rfl, clean⟩

theorem OnTheWay.onward (way : r.OnTheWay catalog data) {query : Query} (going : ¬(r.ask query).2.AtEnd)
    (tail : Bytes) :
    (r.followed tail).ask query = ((r.ask query).1, (r.ask query).2.followed tail) ∧
      (r.ask query).2.OnTheWay catalog data := by
  have sited := askSited way.sited query
  by_cases step : query = .call .next ∧ r.inside = []
  · obtain ⟨rfl, top⟩ := step
    cases ahead : r.ahead? with
    | none => exact absurd (atEndTop top ahead) way.going
    | some c =>
      have result := askNextTop top ahead
      rw [way.fixed] at result
      obtain ⟨last, h, walk, clean⟩ | ⟨last, c', walk⟩ := way.step top ahead
      · rw [walk] at result
        have found : r.ask (.call .next) = (.type (some h.type), ⟨catalog, last, [], .on h none⟩) := result
        refine ⟨askFollowedTop way.sited top tail fun _ => ⟨h.type, congrArg Prod.fst found⟩, ?_⟩
        rw [found] at going sited ⊢
        exact ⟨rfl, sited, fun c' ahead' => by cases ahead'; exact clean, going⟩
      · rw [walk] at result
        rw [result] at going
        exact absurd ⟨rfl, rfl⟩ going
  · have stays : query = .call .next → r.inside ≠ [] := fun next top => step ⟨next, top⟩
    obtain ⟨same, symbols, topAhead⟩ := topAheadKept stays
    refine ⟨?_, same.trans way.fixed, sited, fun c ahead => ?_, going⟩
    · cases inside : r.inside with
      | nil => exact askFollowedTop way.sited inside tail fun next => absurd inside (stays next)
      | cons e outer => exact askFollowedWithin inside query tail
    · rw [symbols]
      exact way.clean c (topAhead.symm.trans ahead)

theorem OnTheWay.seam (way : r.OnTheWay catalog data) (ends : (r.ask (.call .next)).2.AtEnd)
    (marked : versionMarker <+: tail) :
    (r.followed tail).ask (.call .next) =
      ((between catalog .system (.ofBytes tail)).moved data.length).ask (.call .next) := by
  have top : r.inside = [] := by
    cases inside : r.inside with
    | nil => rfl
    | cons e outer =>
      obtain ⟨position, left⟩ := askNextStays inside
      rw [left, AtEnd, inside] at ends
      exact absurd ends.1 (List.cons_ne_nil e outer)
  have top' : (r.followed tail).inside = [] := by rw [followedTop top]; exact top
  cases ahead : r.ahead? with
  | none => exact absurd (atEndTop top ahead) way.going
  | some c =>
    have ahead' : (r.followed tail).ahead? = some (c.followed tail) := by
      rw [aheadFollowedTop way.sited top tail, ahead]
      rfl
    have result := askNextTop top ahead
    rw [way.fixed] at result
    obtain ⟨last, h, walk, -⟩ | ⟨last, c', walk⟩ := way.step top ahead
    · rw [walk] at result
      rw [result] at ends
      cases ends.2
    · obtain ⟨sound, stop⟩ := way.sited.aheadTop top ahead
      have longer := nextTopFollowed catalog r.symbols sound tail
      rw [walk] at longer
      obtain ⟨ended, sound', stop', longer⟩ := longer
      rw [sound'.seam ended (stop'.trans stop) tail,
        nextTopMarked (seamSound data.length tail) marked catalog last .system] at longer
      rw [askNextTop top' ahead', followedTop top, way.fixed]
      dsimp only
      rw [longer]
      exact (askNextTop (r := (between catalog .system (.ofBytes tail)).moved data.length) rfl rfl).symm

open Dialogue

theorem OnTheWay.together (way : r.OnTheWay catalog data) {queries : List Query}
    (along : Along ask (fun r query => ¬(r.ask query).2.AtEnd) r queries) (tail : Bytes) :
    answers ask (r.followed tail) queries = answers ask r queries ∧
      after ask (r.followed tail) queries = (after ask r queries).followed tail ∧
        (after ask r queries).OnTheWay catalog data := by
  let related (r t : Reader) : Prop := t = r.followed tail ∧ r.OnTheWay catalog data
  have stays : related (after ask r queries) (after ask (r.followed tail) queries) := by
    refine stayRelated related ⟨rfl, way⟩ along fun {r t query} both going => ?_
    obtain ⟨rfl, way⟩ := both
    obtain ⟨same, onward⟩ := way.onward going tail
    exact ⟨congrArg Prod.snd same, onward⟩
  have same : answers ask (r.followed tail) queries = (answers ask r queries).map id := by
    refine answerTogether related id ⟨rfl, way⟩ along fun {r t query} both going => ?_
    obtain ⟨rfl, way⟩ := both
    obtain ⟨same, onward⟩ := way.onward going tail
    rw [same]
    exact ⟨rfl, rfl, onward⟩
  rw [List.map_id] at same
  exact ⟨same, stays⟩

theorem sequenceMarked {marked : Cursor} (sound : marked.Sound) (marker : versionMarker <+: marked.rest)
    (catalog : Catalog) (symbols symbols' : SymbolTable) :
    (between catalog symbols marked).sequence = (between catalog symbols' marked).sequence := by
  rw [sequenceBetween, sequenceBetween, nextTopMarked sound marker catalog symbols symbols']

theorem sequenceMoved (k : Nat) (catalog : Catalog) (symbols : SymbolTable) (c : Cursor) :
    (between catalog symbols (c.moved k)).sequence =
      ⟨(between catalog symbols c).sequence.values,
        (between catalog symbols c).sequence.failure.map (IonError.moved k)⟩ := by
  -- on the bytes ahead, of which a value takes some
  induction length : c.rest.length using Nat.strongRecOn generalizing symbols c with
  | ind n ih =>
    rw [sequenceBetween, sequenceBetween, nextTopMoved]
    cases walk : nextTop catalog symbols c with
    | mk last step =>
      cases step with
      | exhausted | halted => rfl
      | value h =>
        have shorter := nextTopShorter walk
        have after := h.afterShorter
        have shown : (h.moved k).shown last = h.shown last := by
          rw [Header.shown, Header.shown, h.payloadMoved]
          rfl
        dsimp only [TopStep.moved]
        rw [h.afterMoved, shown, ih _ (by omega) last h.after rfl]
        rfl

end Reader

theorem Reader.openedBetween {catalog : Catalog} {r : Reader} (opened : Reader.of catalog data = .ok r) :
    r = between catalog .system (.ofBytes data) ∧ versionMarker <+: data := by
  unfold Reader.of at opened
  split at opened
  · rename_i marked
    cases opened
    exact ⟨rfl, List.isPrefixOf_iff_prefix.mp marked⟩
  · contradiction

open Reader Dialogue

/-- Scanning two datagrams one behind the other shows the values of the first and then those of the
second, and ends as scanning the second does, the place of a failure moved by the length of the first.
Every call on the way through the first is answered as by a reader of it alone, and every call from the
step on that would end there as by a reader of the second alone. -/
theorem datagramsConcatenate {catalog : Catalog} {one two : Bytes} {r s : Reader}
    (opened : Reader.of catalog one = .ok r) (opened' : Reader.of catalog two = .ok s)
    (clean : r.sequence.failure = none) :
    ∃ t, Reader.of catalog (one ++ two) = .ok t ∧
      t.sequence = ⟨r.sequence.values ++ s.sequence.values,
        s.sequence.failure.map (IonError.moved one.length)⟩ ∧
      ∀ queries, Along ask (fun r query => ¬(r.ask query).2.AtEnd) r queries →
        answers ask t queries = answers ask r queries ∧
          (((after ask r queries).ask (.call .next)).2.AtEnd → ∀ more,
            answers ask (after ask t queries) (.call .next :: more) =
              (answers ask s (.call .next :: more)).map (Answer.moved one.length)) := by
  obtain ⟨rfl, marked⟩ := openedBetween opened
  obtain ⟨rfl, marked'⟩ := openedBetween opened'
  let first := between catalog .system (.ofBytes one)
  have whole : (Cursor.ofBytes one).followed two = .ofBytes (one ++ two) := by
    simp [Cursor.followed, Cursor.ofBytes]
  have is : first.followed two = between catalog .system (.ofBytes (one ++ two)) := by
    rw [← whole]
    rfl
  have way : first.OnTheWay catalog one := by
    refine ⟨rfl, .before .start .top, fun c ahead => ?_, fun ended => ?_⟩
    · cases ahead
      exact clean
    · cases ended.2
  refine ⟨first.followed two, ?_, ?_, fun queries along => ?_⟩
  · rw [is]
    exact opensBetween catalog (marked.trans (List.prefix_append one two))
  · obtain ⟨last, c, leads, ended⟩ := sequenceLeads catalog .system (.ofBytes one)
    have sound := Cursor.ofBytesSound one
    obtain ⟨there, stop⟩ := leads.sound sound
    have seam := there.seam (ended clean) stop two
    have restarts := sequenceMarked (seamSound one.length two) marked' catalog last .system
    rw [is, ← whole, (leads.followed sound two).sequence, seam, restarts, sequenceMoved]
    rfl
  · obtain ⟨same, last, way⟩ := way.together along two
    refine ⟨same, fun ends more => ?_⟩
    have seam := way.seam ends marked'
    rw [last, ← answersMoved]
    simp only [answers]
    rw [seam]

theorem datagramsConcatenateUpToFailure :
    let one : Bytes := [0xE0, 0x01, 0x00, 0xEA, 0xE7, 0x81, 0x83, 0xD4, 0x87, 0xB2, 0x81, 0x61, 0x71,
      0x0A, 0x01, 0xFF]
    let two : Bytes := [0xE0, 0x01, 0x00, 0xEA, 0xE7, 0x81, 0x83, 0xD4, 0x87, 0xB2, 0x81, 0x62, 0x71,
      0x0A, 0xE4, 0x81, 0x84, 0x20, 0x20]
    let r := between .empty .system (.ofBytes one)
    let s := between .empty .system (.ofBytes two)
    let queries : List Query := [.call .next, .symbol]
    Reader.of .empty one = .ok r ∧ Reader.of .empty two = .ok s ∧ r.sequence.failure = none ∧
      Along ask (fun r query => ¬(r.ask query).2.AtEnd) r queries ∧
        ((after ask r queries).ask (.call .next)).2.AtEnd ∧
          ∃ t, Reader.of .empty (one ++ two) = .ok t ∧ t.sequence.failure = some (.lengthMismatch 30) ∧
            answers ask t queries = [.type (some .symbol), .symbol ⟨some "a", some 10⟩] ∧
              answers ask (after ask t queries) [.call .next, .symbol, .call .next] =
                [.type (some .symbol), .symbol ⟨some "b", some 10⟩, .failed (.lengthMismatch 30)] := by
  intro one two r s queries
  have opened : Reader.of .empty one = .ok r := opensBetween .empty (by decide)
  have opened' : Reader.of .empty two = .ok s := opensBetween .empty (by decide)
  have clean : r.sequence.failure = none := by decide +kernel
  have failure : s.sequence.failure = some (.lengthMismatch 14) := by decide +kernel
  have along : Along ask (fun r query => ¬(r.ask query).2.AtEnd) r queries := by
    simp only [Along, queries]
    decide +kernel
  have ends : ((after ask r queries).ask (.call .next)).2.AtEnd := by decide +kernel
  obtain ⟨t, opens, sequence, same⟩ := datagramsConcatenate opened opened' clean
  obtain ⟨front, later⟩ := same queries along
  refine ⟨opened, opened', clean, along, ends, t, opens, ?_, front.trans ?_, (later ends _).trans ?_⟩
  · rw [sequence, failure]
    rfl
  · decide +kernel
  · decide +kernel

end Ion
