import Ion.Proofs.Outlines

/-! What a reader accepts: stepping through every value of every container of a datagram without
decoding a scalar comes upon an error exactly where the bytes are not in the wire grammar, and shows
the outlines of the grammar where they are. -/
namespace Ion

open Scan Grammar

def Entered.innermost (inside : List Entered) : Option Container := inside.head?.map container

namespace Reader

def scope (r : Reader) : Option Container := Entered.innermost r.inside

inductive Advanced (r : Reader) (c : Cursor) :
    EStateM.Result IonError Reader (Option ValueType) → Prop
  | ended {r' : Reader} (meets : Meets r.scope c .ended) (inside : r'.inside = r.inside) :
      Advanced r c (.ok none r')
  | found {h} {on : Reader} (meets : Meets r.scope c (.value h)) (stands : on.position = .on h none)
      (inside : on.inside = r.inside) : Advanced r c (.ok (some h.type) on)
  | failed {e r'} (meets : Meets r.scope c .failed) : Advanced r c (.error e r')

theorem advanced (r : Reader) (c : Cursor) : Advanced r c (advance c r) := by
  unfold advance
  cases inside : r.inside with
  | nil =>
    have meets := nextTopMeets r.catalog r.symbols c
    have scope : r.scope = none := by rw [Reader.scope, inside]; rfl
    rw [← scope] at meets
    dsimp only
    split <;> rename_i walk <;> rw [walk] at meets
    · exact .ended meets inside.symm
    · exact .failed meets
    · exact .found meets rfl inside.symm
  | cons entered outer =>
    have meets := nextChildMeets entered.container c
    have scope : r.scope = some entered.container := by rw [Reader.scope, inside]; rfl
    rw [← scope] at meets
    dsimp only
    split <;> rename_i walk <;> rw [walk] at meets
    · exact .ended meets inside.symm
    · exact .failed meets
    · exact .found meets rfl inside.symm

structure Ahead (r : Reader) (c : Cursor) : Prop where
  starts : next r = advance c r
  sound : c.Sound

namespace Ahead

variable {r r' on : Reader} {c : Cursor}

theorem advanced (ahead : r.Ahead c) : Advanced r c (next r) := by
  rw [ahead.starts]
  exact r.advanced c

theorem ended (ahead : r.Ahead c) (ended : next r = .ok none r') :
    Meets r.scope c .ended ∧ r'.inside = r.inside := by
  have step := ahead.advanced
  rw [ended] at step
  cases step with
  | ended meets inside => exact ⟨meets, inside⟩

theorem found (ahead : r.Ahead c) {type : ValueType} (found : next r = .ok (some type) on) :
    ∃ h, h.type = type ∧ Meets r.scope c (.value h) ∧ on.position = .on h none ∧
      on.inside = r.inside := by
  have step := ahead.advanced
  rw [found] at step
  cases step with
  | found meets stands inside => exact ⟨_, rfl, meets, stands, inside⟩

theorem failed (ahead : r.Ahead c) {e : IonError} (failed : next r = .error e r') :
    Meets r.scope c .failed := by
  have step := ahead.advanced
  rw [failed] at step
  cases step with
  | failed meets => exact meets

end Ahead

theorem aheadBefore {r : Reader} {c : Cursor} (stands : r.position = .before c) (sound : c.Sound) :
    r.Ahead c :=
  ⟨by simp only [next, stands], sound⟩

theorem aheadOn {r : Reader} {h : Header} {decoded : Variant} (stands : r.position = .on h decoded)
    (sound : h.after.Sound) : r.Ahead h.after :=
  ⟨by simp only [next, stands], sound⟩

theorem scopeSame {r s : Reader} (same : r.inside = s.inside) : r.scope = s.scope := by
  rw [scope, scope, same]

structure Enters (on : Reader) (h : Header) (kind : Container) (inner : Reader) : Prop where
  holds : h.container? = some kind
  ahead : inner.Ahead h.body
  inside : inner.inside = ⟨kind, h.after⟩ :: on.inside
  behind : h.after.Sound

section Entering

variable {on inner ended back : Reader} {h : Header} {decoded : Variant} {kind : Container}

theorem enters (stands : on.position = .on h decoded) (sound : h.body.Sound ∧ h.after.Sound)
    (enter : stepIn on = .ok () inner) : ∃ kind, Enters on h kind inner := by
  simp only [stepIn, current?, stands] at enter
  split at enter
  · contradiction
  · rename_i kind holds
    split at enter
    · contradiction
    · rename_i something
      cases enter
      exact ⟨kind, h.holdsIff.mpr ⟨by simpa using something, holds⟩, aheadBefore rfl sound.1, rfl,
        sound.2⟩

theorem stepInRuns (stands : on.position = .on h decoded) (holds : h.container? = some kind) :
    ∃ inner, stepIn on = .ok () inner := by
  obtain ⟨something, holds⟩ := h.holdsIff.mp holds
  simp only [stepIn, current?, stands, holds, something]
  exact ⟨_, rfl⟩

theorem stepOutRuns {entered : Entered} {outer : List Entered}
    (inside : ended.inside = entered :: outer) : ∃ back, stepOut ended = .ok () back := by
  simp only [stepOut, inside]
  exact ⟨_, rfl⟩

theorem Enters.scope (enters : Enters on h kind inner) : inner.scope = some kind := by
  rw [Reader.scope, enters.inside]
  rfl

theorem Enters.leaves (enters : Enters on h kind inner) (stays : ended.inside = inner.inside)
    (leave : stepOut ended = .ok () back) : back.Ahead h.after ∧ back.inside = on.inside := by
  simp only [stepOut, stays, enters.inside] at leave
  cases leave
  exact ⟨aheadBefore rfl enters.behind, rfl⟩

end Entering

inductive Walks : Reader → List Outline → Reader → Prop
  | done {r r'} (ended : next r = .ok none r') : Walks r [] r'
  | leaf {r on r' type field sids shown} (found : next r = .ok (some type) on)
      (leaf : on.currentIsNull = true ∨ type.container? = none) (bears : on.Bears field sids)
      (more : Walks on shown r') : Walks r (.leaf field sids type on.currentIsNull :: shown) r'
  | container {r on inner ended back r' type kind field sids children shown}
      (found : next r = .ok (some type) on) (something : on.currentIsNull = false)
      (holds : type.container? = some kind) (bears : on.Bears field sids)
      (enter : stepIn on = .ok () inner) (body : Walks inner children ended)
      (leave : stepOut ended = .ok () back) (more : Walks back shown r') :
      Walks r (.container field sids kind children :: shown) r'

inductive Breaks : Reader → IonError → Prop
  | next {r r' e} (failed : next r = .error e r') : Breaks r e
  | leaf {r on type e} (found : Reader.next r = .ok (some type) on)
      (leaf : on.currentIsNull = true ∨ type.container? = none) (later : Breaks on e) : Breaks r e
  | enter {r on r' type kind e} (found : Reader.next r = .ok (some type) on)
      (something : on.currentIsNull = false) (holds : type.container? = some kind)
      (failed : stepIn on = .error e r') : Breaks r e
  | inside {r on inner type e} (found : Reader.next r = .ok (some type) on)
      (enter : stepIn on = .ok () inner) (broken : Breaks inner e) : Breaks r e
  | leave {r on inner ended r' type children e} (found : Reader.next r = .ok (some type) on)
      (enter : stepIn on = .ok () inner) (body : Walks inner children ended)
      (failed : stepOut ended = .error e r') : Breaks r e
  | behind {r on inner ended back type children e} (found : Reader.next r = .ok (some type) on)
      (enter : stepIn on = .ok () inner) (body : Walks inner children ended)
      (leave : stepOut ended = .ok () back) (later : Breaks back e) : Breaks r e

theorem bearsOn {r : Reader} {h : Header} {decoded : Variant} (stands : r.position = .on h decoded) :
    r.Bears h.field h.annotations :=
  ⟨by simp [fieldToken?, current?, stands], by simp [annotations, current?, stands]⟩

theorem Ahead.shows {r on : Reader} {c : Cursor} (ahead : r.Ahead c) {type : ValueType}
    {field : Option Nat} {sids : List Nat} (found : next r = .ok (some type) on)
    (bears : on.Bears field sids) :
    ∃ h, h.type = type ∧ h.field = field ∧ h.annotations = sids ∧ Meets r.scope c (.value h) ∧
      on.position = .on h none ∧ on.inside = r.inside := by
  obtain ⟨h, type, meets, stands, inside⟩ := ahead.found found
  obtain ⟨field, sids⟩ := (bearsOn stands).unique bears
  exact ⟨h, type, field, sids, meets, stands, inside⟩

theorem nullOn {r : Reader} {h : Header} {decoded : Variant} (stands : r.position = .on h decoded) :
    r.currentIsNull = h.isNull := by
  simp only [currentIsNull, current?, stands]

theorem Walks.inside {r r' : Reader} {shown : List Outline} {c : Cursor} (walks : r.Walks shown r')
    (ahead : r.Ahead c) : r'.inside = r.inside := by
  induction walks generalizing c with
  | done ended => exact (ahead.ended ended).2
  | leaf found leaf bears more ih =>
    obtain ⟨h, rfl, meets, stands, inside⟩ := ahead.found found
    exact (ih (aheadOn stands (meets.behind ahead.sound).2)).trans inside
  | container found something holds bears enter body leave more bodyIh moreIh =>
    obtain ⟨h, rfl, meets, stands, inside⟩ := ahead.found found
    obtain ⟨kind, enters⟩ := enters stands (meets.behind ahead.sound) enter
    obtain ⟨later, outer⟩ := enters.leaves (bodyIh enters.ahead) leave
    exact (moreIh later).trans (outer.trans inside)

theorem walksOrBreaks {r : Reader} {c : Cursor} (ahead : r.Ahead c) :
    (∃ shown r', r.Walks shown r') ∨ ∃ e, r.Breaks e := by
  induction size : c.rest.length using Nat.strongRecOn generalizing r c with
  | ind size ih =>
    subst size
    have step := ahead.advanced
    cases found : next r with
    | error e r' => exact .inr ⟨e, .next found⟩
    | ok shown on =>
      rw [found] at step
      cases step with
      | ended => exact .inl ⟨[], on, .done found⟩
      | @found h on meets stands inside =>
        have sound := meets.behind ahead.sound
        have less := meets.shorter
        have null := nullOn stands
        have bears := bearsOn stands
        cases holds : h.container? with
        | none =>
          have leaf := h.leafIff.mp holds
          rw [← null] at leaf
          obtain ⟨shown, r', later⟩ | ⟨e, later⟩ := ih _ less.2 (aheadOn stands sound.2) rfl
          · exact .inl ⟨_, r', .leaf found leaf bears later⟩
          · exact .inr ⟨e, .leaf found leaf later⟩
        | some kind =>
          have kinds := h.holdsIff.mp holds
          rw [← null] at kinds
          obtain ⟨inner, enter⟩ := stepInRuns stands holds
          obtain ⟨_, enters⟩ := enters stands sound enter
          obtain ⟨children, ended, body⟩ | ⟨e, broken⟩ := ih _ less.1 enters.ahead rfl
          · have stays := body.inside enters.ahead
            obtain ⟨back, leave⟩ := stepOutRuns (stays.trans enters.inside)
            obtain ⟨shown, r', later⟩ | ⟨e, later⟩ := ih _ less.2 (enters.leaves stays leave).1 rfl
            · exact .inl ⟨_, r', .container found kinds.1 kinds.2 bears enter body leave later⟩
            · exact .inr ⟨e, .behind found enter body leave later⟩
          · exact .inr ⟨e, .inside found enter broken⟩

theorem Walks.items {r r' : Reader} {shown : List Outline} {c : Cursor} (walks : r.Walks shown r')
    (ahead : r.Ahead c) (free : r.scope = none → ¬DeclaresSymbols c.rest) {other : List Outline} :
    Items r.scope c.rest other ↔ other = shown := by
  induction walks generalizing c other with
  | done ended => exact (ahead.ended ended).1.endedItems ahead.sound free
  | leaf found leaf bears more ih =>
    obtain ⟨h, rfl, rfl, rfl, meets, stands, inside⟩ := ahead.shows found bears
    rw [nullOn stands] at leaf ⊢
    have leaf := h.leafIff.mpr leaf
    have scope := scopeSame inside
    refine meets.onlyItems ahead.sound free (fun _ => outlinedLeaf leaf) fun _ => ?_
    rw [← scope]
    refine ih (aheadOn stands (meets.behind ahead.sound).2) ?_
    rw [scope]
    exact meets.stillFree ahead.sound free (.leaf leaf)
  | @container r on inner ended back r' type kind field sids children shown found something holds bears
      enter body leave more bodyIh moreIh =>
    obtain ⟨h, rfl, rfl, rfl, meets, stands, inside⟩ := ahead.shows found bears
    rw [nullOn stands] at something
    have holds := h.holdsIff.mpr ⟨something, holds⟩
    obtain ⟨kind', enters⟩ := enters stands (meets.behind ahead.sound) enter
    cases holds.symm.trans enters.holds
    obtain ⟨later, outer⟩ := enters.leaves (body.inside enters.ahead) leave
    have scope := scopeSame (outer.trans inside)
    have only (shown : List Outline) : Items (some kind) h.payload shown ↔ shown = children := by
      rw [← enters.scope]
      exact bodyIh enters.ahead (by rw [enters.scope]; exact nofun)
    refine meets.onlyItems ahead.sound free (fun _ => ?_) fun _ => ?_
    · rw [outlinedContainer holds]
      simp only [only, exists_eq_left]
    · rw [← scope]
      refine moreIh later ?_
      rw [scope]
      exact meets.stillFree ahead.sound free (.container holds ((only children).mpr rfl))

theorem Breaks.items {r : Reader} {e : IonError} {c : Cursor} (breaks : r.Breaks e)
    (ahead : r.Ahead c) (free : r.scope = none → ¬DeclaresSymbols c.rest) {shown : List Outline} :
    ¬Items r.scope c.rest shown := by
  induction breaks generalizing c shown with
  | next failed => exact (ahead.failed failed).failedItems ahead.sound free
  | leaf found leaf later ih =>
    obtain ⟨h, rfl, meets, stands, inside⟩ := ahead.found found
    rw [meets.valueItems ahead.sound free]
    rintro ⟨o, rest, rfl, outlined, more⟩
    rw [← scopeSame inside] at more
    refine ih (aheadOn stands (meets.behind ahead.sound).2) ?_ more
    rw [scopeSame inside]
    exact meets.stillFree ahead.sound free outlined
  | enter found something holds failed =>
    obtain ⟨h, rfl, meets, stands, inside⟩ := ahead.found found
    rw [nullOn stands] at something
    obtain ⟨inner, enter⟩ := stepInRuns stands (h.holdsIff.mpr ⟨something, holds⟩)
    rw [failed] at enter
    contradiction
  | inside found enter broken ih =>
    obtain ⟨h, rfl, meets, stands, inside⟩ := ahead.found found
    obtain ⟨kind, enters⟩ := enters stands (meets.behind ahead.sound) enter
    rw [meets.valueItems ahead.sound free]
    rintro ⟨o, rest, rfl, outlined, more⟩
    obtain ⟨children, body, -⟩ := (outlinedContainer enters.holds).mp outlined
    rw [← enters.scope] at body
    exact ih enters.ahead (by rw [enters.scope]; exact nofun) body
  | leave found enter body failed =>
    obtain ⟨h, rfl, meets, stands, inside⟩ := ahead.found found
    obtain ⟨kind, enters⟩ := enters stands (meets.behind ahead.sound) enter
    obtain ⟨back, leave⟩ := stepOutRuns ((body.inside enters.ahead).trans enters.inside)
    rw [failed] at leave
    contradiction
  | behind found enter body leave later ih =>
    obtain ⟨h, rfl, meets, stands, inside⟩ := ahead.found found
    obtain ⟨kind, enters⟩ := enters stands (meets.behind ahead.sound) enter
    obtain ⟨behind, outer⟩ := enters.leaves (body.inside enters.ahead) leave
    have scope := scopeSame (outer.trans inside)
    rw [meets.valueItems ahead.sound free]
    rintro ⟨o, rest, rfl, outlined, more⟩
    rw [← scope] at more
    refine ih behind ?_ more
    rw [scope]
    exact meets.stillFree ahead.sound free outlined

def Rejects (catalog : Catalog) (data : Bytes) : Prop :=
  (∃ e, Reader.of catalog data = .error e) ∨
    ∃ r e, Reader.of catalog data = .ok r ∧ r.Breaks e

end Reader

theorem datagramItems {data : Bytes} (marked : versionMarker.isPrefixOf data = true)
    {shown : List Outline} : Datagram data shown ↔ Items none data shown := by
  obtain ⟨raw, rfl⟩ := List.isPrefixOf_iff_prefix.mp marked
  have sound := Cursor.ofBytesSound (versionMarker ++ raw)
  have marker : anyItem none (.ofBytes (versionMarker ++ raw)) = .ok .marker _ := takesMarker sound rfl
  have same : Items none (versionMarker ++ raw) shown ↔ Items none raw shown :=
    itemsHidden sound marker TopItem.markerHidden
  refine ⟨?_, fun items => ⟨raw, rfl, same.mp items⟩⟩
  rintro ⟨raw', split, items⟩
  cases List.append_cancel_left split
  exact same.mpr items

theorem Reader.opens {catalog : Catalog} {data : Bytes} {r : Reader}
    (opened : Reader.of catalog data = .ok r) : r.Ahead (.ofBytes data) ∧ r.scope = none := by
  unfold Reader.of at opened
  split at opened
  · cases opened
    exact ⟨Reader.aheadBefore rfl (Cursor.ofBytesSound data), rfl⟩
  · contradiction

/-- Over bytes in which no top-level struct is taken for a symbol table, stepping through everything
shows the outlines that the grammar finds, and raises an error exactly when there are none. -/
theorem readerAcceptsGrammar (catalog : Catalog) (data : Bytes) (free : ¬DeclaresSymbols data) :
    (∀ shown, (∃ r r', Reader.of catalog data = .ok r ∧ r.Walks shown r') ↔ Datagram data shown) ∧
      (Reader.Rejects catalog data ↔ ¬∃ shown, Datagram data shown) := by
  by_cases marked : versionMarker.isPrefixOf data
  · obtain ⟨r, opens⟩ : ∃ r, Reader.of catalog data = .ok r := ⟨_, if_pos marked⟩
    obtain ⟨ahead, top⟩ := Reader.opens opens
    have walked {shown r'} (walks : r.Walks shown r') (other : List Outline) :
        Datagram data other ↔ other = shown := by
      rw [datagramItems marked, ← top]
      exact walks.items ahead fun _ => free
    have broken {e} (breaks : r.Breaks e) (other : List Outline) : ¬Datagram data other := by
      rw [datagramItems marked, ← top]
      exact breaks.items ahead fun _ => free
    refine ⟨fun shown => ⟨?_, fun datagram => ?_⟩, ?_, fun without => ?_⟩
    · rintro ⟨r', ended, opened, walks⟩
      cases opens.symm.trans opened
      exact (walked walks shown).mpr rfl
    · obtain ⟨other, r', walks⟩ | ⟨e, breaks⟩ := Reader.walksOrBreaks ahead
      · rw [(walked walks shown).mp datagram]
        exact ⟨r, r', opens, walks⟩
      · exact absurd datagram (broken breaks shown)
    · rintro (⟨e, closed⟩ | ⟨r', e, opened, breaks⟩) ⟨shown, datagram⟩
      · rw [opens] at closed
        contradiction
      · cases opens.symm.trans opened
        exact broken breaks shown datagram
    · obtain ⟨shown, r', walks⟩ | ⟨e, breaks⟩ := Reader.walksOrBreaks ahead
      · exact absurd ⟨shown, (walked walks shown).mpr rfl⟩ without
      · exact .inr ⟨r, e, opens, breaks⟩
  · have closed : Reader.of catalog data = .error .badVersionMarker := if_neg marked
    have refused (shown : List Outline) : ¬Datagram data shown := by
      rintro ⟨raw, rfl, _⟩
      exact marked (List.isPrefixOf_iff_prefix.mpr (List.prefix_append versionMarker raw))
    refine ⟨fun shown => ⟨?_, fun datagram => absurd datagram (refused shown)⟩, ?_, ?_⟩
    · rintro ⟨r, r', opened, _⟩
      rw [closed] at opened
      contradiction
    · rintro _ ⟨shown, datagram⟩
      exact refused shown datagram
    · exact fun _ => .inl ⟨_, closed⟩

theorem acceptsSortedStruct :
    let data : Bytes := [0xE0, 0x01, 0x00, 0xEA, 0x01, 0xFF, 0xE8, 0x81, 0x8A, 0xD1, 0x84, 0x84, 0x22,
      0x00, 0x05]
    let shown : List Outline := [.container none [10] .struct [.leaf (some 4) [] .int false]]
    ¬DeclaresSymbols data ∧ ∃ r r', Reader.of .empty data = .ok r ∧ r.Walks shown r' := by
  intro data shown
  have free : ¬DeclaresSymbols data := fun declares => absurd declares.byte (by decide)
  have number (b : UInt8) (marked : 128 ≤ b.toNat) : Number [b] (b.toNat % 128) := by
    have digits : Digits 0 [b] (0 * 128 + b.toNat % 128) := .last marked
    rw [Nat.zero_mul, Nat.zero_add] at digits
    exact ⟨digits, Nat.lt_trans (Nat.mod_lt _ (by decide)) (by decide)⟩
  have five : Bare ⟨0x22, [], [0x00, 0x05]⟩ .int :=
    ⟨rfl, rfl, .ordinary (by decide) nofun nofun (by decide) (.short (by decide))⟩
  have member : Items (some .struct) ([0x84] ++ (Shape.bytes ⟨0x22, [], [0x00, 0x05]⟩ ++ []))
      [.leaf (some 4) [] .int false] :=
    .leaf (.some rfl ⟨number 0x84 (by decide), by decide⟩) (.bare five) (.inr rfl) .done
  obtain ⟨struct, sorted⟩ : ∃ s : Shape, s = ⟨0xD1, [0x84], [0x84, 0x22, 0x00, 0x05]⟩ := ⟨_, rfl⟩
  obtain ⟨outer, wrapping⟩ : ∃ s : Shape, s = ⟨0xE8, [], [0x81] ++ (([0x8A] ++ []) ++ struct.bytes)⟩ :=
    ⟨_, rfl⟩
  have wrapper : Wrapper outer [0x81] ([0x8A] ++ []) [10] struct .struct := by
    subst wrapping sorted
    exact ⟨rfl, by decide, .short (by decide), rfl, number 0x81 (by decide),
      .cons ⟨number 0x8A (by decide), by decide⟩ .nil, nofun, rfl, rfl,
      .sorted rfl rfl (number 0x84 (by decide))⟩
  have items : Items none ([] ++ (Shape.bytes ⟨0x01, [], [0xFF]⟩ ++ ([] ++ (outer.bytes ++ [])))) shown := by
    refine .padding (.none nofun) ⟨rfl, .short (by decide)⟩
      (.container (.none nofun) (.wrapped wrapper) ?_ rfl ?_ .done)
    · rw [sorted]
      rfl
    · rw [sorted]
      exact member
  have datagram : Datagram data shown := ⟨_, by rw [wrapping, sorted]; rfl, items⟩
  exact ⟨free, ((readerAcceptsGrammar .empty data free).1 shown).mpr datagram⟩

end Ion
