import Ion.Proofs.GrammarItems

/-! Walking along the items of a container or a datagram: what a walk meets behind the items that
pass unseen, and what that says about the outlines the grammar finds in the bytes ahead. -/
namespace Ion

namespace Grammar

open Scan

theorem Items.append {scope : Option Container} {front raw : Bytes} {shown later : List Outline}
    (one : Items scope front shown) (two : Items scope raw later) :
    Items scope (front ++ raw) (shown ++ later) := by
  induction one with
  | done => exact two
  | marker more ih =>
    rw [List.append_assoc]
    exact .marker (ih two)
  | padding name form more ih =>
    rw [List.append_assoc, List.append_assoc]
    exact .padding name form (ih two)
  | leaf name value leaf more ih =>
    rw [List.append_assoc, List.append_assoc]
    exact .leaf name value leaf (ih two)
  | container name value something holds body more bodyIh ih =>
    rw [List.append_assoc, List.append_assoc]
    exact .container name value something holds body (ih two)

inductive Outlined (h : Header) : Outline → Prop
  | leaf (leaf : h.container? = none) :
      Outlined h (.leaf h.field h.annotations h.type h.isNull)
  | container {kind children} (holds : h.container? = some kind)
      (body : Items (some kind) h.payload children) :
      Outlined h (.container h.field h.annotations kind children)

theorem outlinedLeaf {h : Header} (leaf : h.container? = none) {o : Outline} :
    Outlined h o ↔ o = .leaf h.field h.annotations h.type h.isNull := by
  refine ⟨fun outlined => ?_, ?_⟩
  · cases outlined with
    | leaf => rfl
    | container holds =>
      rw [leaf] at holds
      contradiction
  · rintro rfl
    exact .leaf leaf

theorem outlinedContainer {h : Header} {kind : Container} (holds : h.container? = some kind)
    {o : Outline} : Outlined h o ↔ ∃ children, Items (some kind) h.payload children ∧
      o = .container h.field h.annotations kind children := by
  refine ⟨fun outlined => ?_, ?_⟩
  · cases outlined with
    | leaf leaf =>
      rw [leaf] at holds
      contradiction
    | container holds' body =>
      rw [holds] at holds'
      cases holds'
      exact ⟨_, body, rfl⟩
  · rintro ⟨children, body, rfl⟩
    exact .container holds body

end Grammar

namespace Header

theorem leafIff (h : Header) :
    h.container? = none ↔ h.isNull = true ∨ h.type.container? = none := by
  unfold container?
  cases h.isNull <;> simp

theorem holdsIff (h : Header) {kind : Container} :
    h.container? = some kind ↔ h.isNull = false ∧ h.type.container? = some kind := by
  unfold container?
  cases h.isNull <;> simp

end Header

namespace Header.Found

variable {h : Header} {s : Shape} {type : ValueType} {field : Option Nat} {sids : List Nat}
  {c : Cursor} {size : Nat} {more : Bytes}

theorem null (found : h.Found s type field sids c size more) : h.isNull = s.isNull := by
  rw [Header.isNull, found.descriptor]
  rfl

theorem leaf (found : h.Found s type field sids c size more) :
    h.container? = none ↔ s.isNull = true ∨ type.container? = none := by
  rw [h.leafIff, found.null, found.type]

theorem holds (found : h.Found s type field sids c size more) {kind : Container} :
    h.container? = some kind ↔ s.isNull = false ∧ type.container? = some kind := by
  rw [h.holdsIff, found.null, found.type]

end Header.Found

namespace Grammar

open Scan

variable {scope : Option Container} {c c' : Cursor}

theorem Spelled.sound {found : TopItem} (spelled : Spelled scope c found c') (sound : c.Sound) :
    c'.Sound := by
  cases spelled with
  | marker top ahead => exact sound.behind ahead
  | padding name form ahead =>
    rw [← List.append_assoc] at ahead
    exact sound.behind ahead
  | value name value ahead found => exact found.sound

theorem Spelled.behind {h : Header} (spelled : Spelled scope c (.value h) c') :
    h.body.Sound ∧ h.after.Sound := by
  cases spelled with
  | value name value ahead found => exact ⟨found.inner, found.behind.1⟩

theorem Spelled.hidden {found : TopItem} (spelled : Spelled scope c found c')
    (hidden : ∀ h, found ≠ .value h) :
    ∃ front, c.rest = front ++ c'.rest ∧ Items scope front [] := by
  cases spelled with
  | marker top ahead =>
    cases top
    refine ⟨versionMarker, by rw [Cursor.advanceRest ahead]; exact ahead, ?_⟩
    exact .marker .done
  | @padding named field s more name form ahead =>
    rw [← List.append_assoc] at ahead
    refine ⟨named ++ s.bytes, by rw [Cursor.advanceRest ahead]; exact ahead, ?_⟩
    have alone := Items.padding name form .done
    rwa [List.append_nil] at alone
  | value => exact absurd rfl (hidden _)

theorem Spelled.shown {h : Header} {o : Outline} (spelled : Spelled scope c (.value h) c')
    (outlined : Outlined h o) :
    ∃ front, c.rest = front ++ h.after.rest ∧ Items scope front [o] := by
  cases spelled with
  | @value named field whole sids s type more h name value ahead found =>
    rw [← List.append_assoc] at ahead
    refine ⟨named ++ whole, by rw [found.behind.2]; exact ahead, ?_⟩
    cases outlined with
    | leaf leaf =>
      have alone := Items.leaf name value (found.leaf.mp leaf) .done
      rw [List.append_nil] at alone
      rw [found.field, found.annotations, found.type, found.null]
      exact alone
    | container holds body =>
      rw [found.payload] at body
      have kind := found.holds.mp holds
      have alone := Items.container name value kind.1 kind.2 body .done
      rw [List.append_nil] at alone
      rw [found.field, found.annotations]
      exact alone

inductive Begins (scope : Option Container) (c : Cursor) : List Outline → Prop
  | done (ended : c.rest = []) : Begins scope c []
  | hidden {found c' shown} (scan : anyItem scope c = .ok found c') (hidden : ∀ h, found ≠ .value h)
      (more : Items scope c'.rest shown) : Begins scope c shown
  | value {h o shown} (scan : anyItem scope c = .ok (.value h) h.start) (outlined : Outlined h o)
      (more : Items scope h.after.rest shown) : Begins scope c (o :: shown)

theorem Items.begins {raw : Bytes} {shown : List Outline} (items : Items scope raw shown)
    (sound : c.Sound) (ahead : c.rest = raw) : Begins scope c shown := by
  cases items with
  | done => exact .done ahead
  | marker more =>
    refine .hidden (takesMarker sound ahead) TopItem.markerHidden ?_
    rwa [Cursor.advanceRest ahead]
  | padding name form more =>
    refine .hidden (anyItemPasses name form sound ahead) TopItem.paddingHidden ?_
    rw [← List.append_assoc] at ahead
    rwa [Cursor.advanceRest ahead]
  | leaf name value leaf more =>
    obtain ⟨h, scan, found⟩ := anyItemFinds name value sound ahead
    have outlined := Outlined.leaf (found.leaf.mpr leaf)
    rw [found.field, found.annotations, found.type, found.null] at outlined
    refine .value scan outlined ?_
    rwa [found.behind.2]
  | container name value something holds body more =>
    obtain ⟨h, scan, found⟩ := anyItemFinds name value sound ahead
    rw [← found.payload] at body
    have outlined := Outlined.container (found.holds.mpr ⟨something, holds⟩) body
    rw [found.field, found.annotations] at outlined
    refine .value scan outlined ?_
    rwa [found.behind.2]

theorem Begins.items {shown : List Outline} (begins : Begins scope c shown) (sound : c.Sound) :
    Items scope c.rest shown := by
  cases begins with
  | done ended =>
    rw [ended]
    exact .done
  | hidden scan hidden more =>
    obtain ⟨front, ahead, items⟩ := (anyItemTakes sound scan).hidden hidden
    rw [ahead]
    exact items.append more
  | value scan outlined more =>
    obtain ⟨front, ahead, items⟩ := (anyItemTakes sound scan).shown outlined
    rw [ahead]
    exact items.append more

theorem itemsIff (sound : c.Sound) {shown : List Outline} :
    Items scope c.rest shown ↔ Begins scope c shown :=
  ⟨fun items => items.begins sound rfl, fun begins => begins.items sound⟩

/-- Behind whole items at the top level stands a struct that readers take for a symbol table. -/
inductive DeclaresSymbols : Bytes → Prop
  | behind {front shown whole sids s more} (items : Items none front shown)
      (value : Value whole sids s .struct) (something : s.isNull = false)
      (table : sids.head? = some Sid.symbolTable) : DeclaresSymbols (front ++ (whole ++ more))

theorem DeclaresSymbols.later {raw more : Bytes} {shown : List Outline} (items : Items none raw shown)
    (declares : DeclaresSymbols more) : DeclaresSymbols (raw ++ more) := by
  cases declares with
  | behind front value something table =>
    rw [← List.append_assoc]
    exact .behind (items.append front) value something table

theorem Digits.lastByte {acc n : Nat} {raw : Bytes} (digits : Digits acc raw n) :
    UInt8.ofNat (128 + n % 128) ∈ raw := by
  induction digits with
  | @last acc b marked =>
    have byte : 128 + (acc * 128 + b.toNat % 128) % 128 = b.toNat := by
      have small := b.toNat_lt
      omega
    rw [byte, UInt8.ofNat_toNat]
    exact List.mem_singleton_self b
  | digit unmarked more ih => exact List.mem_cons_of_mem _ ih

theorem DeclaresSymbols.byte {raw : Bytes} (declares : DeclaresSymbols raw) : 0x83 ∈ raw := by
  cases declares with
  | @behind front shown whole sids s more items value something table =>
    refine List.mem_append_right front (List.mem_append_left more ?_)
    cases value with
    | bare => contradiction
    | @wrapped outer counted names sids s type wrapper =>
      have listed := wrapper.names
      have filled := wrapper.filled
      cases listed with
      | nil => contradiction
      | @cons first sid later sids symbol rest =>
        cases table
        have named : 0x83 ∈ first := symbol.1.1.lastByte
        have inside : 0x83 ∈ outer.body := by
          rw [filled]
          simp [named]
        simp [Shape.bytes, inside]

theorem Spelled.declares {h : Header} (spelled : Spelled none c (.value h) c')
    (table : h.isTable = true) : DeclaresSymbols c.rest := by
  cases spelled with
  | value name value ahead found =>
    cases nameOutside name
    simp only [Header.isTable, Bool.and_eq_true, Bool.not_eq_true', beq_iff_eq, found.type,
      found.annotations, found.null] at table
    obtain ⟨⟨rfl, something⟩, first⟩ := table
    rw [ahead]
    exact .behind .done value something first

end Grammar

namespace Scan

theorem anyItemShortens (scope : Option Container) : Shortens (anyItem scope) := by
  cases scope with
  | none => exact topItemShortens
  | some kind => exact (itemShortens (some kind)).bind fun _ => pureNeverGrows _

inductive Passes (scope : Option Container) : Cursor → Cursor → Prop
  | here {c} : Passes scope c c
  | hidden {c c' c'' found} (scan : anyItem scope c = .ok found c') (hidden : ∀ h, found ≠ .value h)
      (more : Passes scope c' c'') : Passes scope c c''
  | table {c c' c'' h} (top : scope = none) (scan : anyItem scope c = .ok (.value h) c')
      (table : h.isTable = true) (more : Passes scope h.after c'') : Passes scope c c''

inductive Outcome
  | ended
  | failed
  | value (h : Header)

inductive Meets (scope : Option Container) (c : Cursor) : Outcome → Prop
  | ended {c'} (passes : Passes scope c c') (ended : c'.atEnd = true) : Meets scope c .ended
  | failed {c' c'' e} (passes : Passes scope c c') (inside : c'.atEnd = false)
      (scan : anyItem scope c' = .error e c'') : Meets scope c .failed
  | value {c' c'' h} (passes : Passes scope c c') (inside : c'.atEnd = false)
      (scan : anyItem scope c' = .ok (.value h) c'') (plain : scope = none → h.isTable = false) :
      Meets scope c (.value h)
  | unloaded {c' c'' h} (passes : Passes scope c c') (top : scope = none)
      (scan : anyItem scope c' = .ok (.value h) c'') (table : h.isTable = true) :
      Meets scope c .failed

section

variable {scope : Option Container} {c c' c'' : Cursor}

theorem Passes.trans (one : Passes scope c c') (two : Passes scope c' c'') : Passes scope c c'' := by
  induction one with
  | here => exact two
  | hidden scan hidden more ih => exact .hidden scan hidden (ih two)
  | table top scan table more ih => exact .table top scan table (ih two)

theorem Meets.further {o : Outcome} (passes : Passes scope c c') (meets : Meets scope c' o) :
    Meets scope c o := by
  cases meets with
  | ended more ended => exact .ended (passes.trans more) ended
  | failed more inside scan => exact .failed (passes.trans more) inside scan
  | value more inside scan plain => exact .value (passes.trans more) inside scan plain
  | unloaded more top scan table => exact .unloaded (passes.trans more) top scan table

end

end Scan

def Step.outcome : Step → Scan.Outcome
  | exhausted _ => .ended
  | failed _ _ => .failed
  | value h => .value h

def TopStep.outcome : TopStep → Scan.Outcome
  | exhausted _ => .ended
  | halted _ => .failed
  | value h => .value h

open Scan

theorem nextChildMeets (kind : Container) (c : Cursor) :
    Meets (some kind) c (nextChild kind c).outcome := by
  fun_induction nextChild kind c with
  | case1 c ended => exact .ended .here ended
  | case2 c inside e c' scan =>
    exact .failed .here (by simpa using inside) (anyItemFails scan)
  | case3 c inside c' scan ih =>
    exact ih.further (.hidden (anyItemInside scan) TopItem.paddingHidden .here)
  | case4 c inside h c' scan =>
    exact .value .here (by simpa using inside) (anyItemInside scan) fun top =>
      absurd top (Option.some_ne_none kind)

theorem nextTopMeets (catalog : Catalog) (symbols : SymbolTable) (c : Cursor) :
    Meets none c (nextTop catalog symbols c).2.outcome := by
  fun_induction nextTop catalog symbols c with
  | case1 symbols c ended => exact .ended .here ended
  | case2 symbols c inside e c' scan => exact .failed .here (by simpa using inside) scan
  | case3 symbols c inside c' scan ih => exact ih.further (.hidden scan TopItem.markerHidden .here)
  | case4 symbols c inside c' scan ih => exact ih.further (.hidden scan TopItem.paddingHidden .here)
  | case5 symbols c inside h c' scan table loaded load ih =>
    exact ih.further (.table rfl scan table .here)
  | case6 symbols c inside h c' scan table halt load => exact .unloaded .here rfl scan table
  | case7 symbols c inside h c' scan table =>
    exact .value .here (by simpa using inside) scan fun _ => by simpa using table

namespace Scan

open Grammar

variable {scope : Option Container} {c c' : Cursor} {h : Header}

theorem anyItemSome {found : TopItem} (ok : anyItem scope c = .ok found c') : c.rest ≠ [] := by
  intro nothing
  have shorter := anyItemShortens scope c found c' ok
  rw [nothing] at shorter
  contradiction

theorem itemsHidden {found : TopItem} (sound : c.Sound) (scan : anyItem scope c = .ok found c')
    (hidden : ∀ h, found ≠ .value h) {shown : List Outline} :
    Items scope c.rest shown ↔ Items scope c'.rest shown := by
  refine ⟨fun items => ?_, fun more => (Begins.hidden scan hidden more).items sound⟩
  cases itemsIff sound |>.mp items with
  | done ended => exact absurd ended (anyItemSome scan)
  | hidden same _ more =>
    rw [scan] at same
    cases same
    exact more
  | value same =>
    rw [scan] at same
    cases same
    exact absurd rfl (hidden _)

theorem itemsValue (sound : c.Sound) (scan : anyItem scope c = .ok (.value h) c')
    {shown : List Outline} : Items scope c.rest shown ↔
      ∃ o later, shown = o :: later ∧ Outlined h o ∧ Items scope h.after.rest later := by
  have start : h.start = c' := by
    cases anyItemTakes sound scan
    rfl
  subst start
  refine ⟨fun items => ?_, ?_⟩
  · cases itemsIff sound |>.mp items with
    | done ended => exact absurd ended (anyItemSome scan)
    | hidden same hidden =>
      rw [scan] at same
      cases same
      exact absurd rfl (hidden _)
    | value same outlined more =>
      rw [scan] at same
      cases same
      exact ⟨_, _, rfl, outlined, more⟩
  · rintro ⟨o, later, rfl, outlined, more⟩
    exact (Begins.value scan outlined more).items sound

theorem Passes.sound (passes : Passes scope c c') (sound : c.Sound) : c'.Sound := by
  induction passes with
  | here => exact sound
  | hidden scan hidden more ih => exact ih ((anyItemTakes sound scan).sound sound)
  | table top scan table more ih => exact ih (anyItemTakes sound scan).behind.2

theorem Passes.neverGrows (passes : Passes scope c c') : c'.rest.length ≤ c.rest.length := by
  induction passes with
  | here => exact Nat.le_refl _
  | hidden scan hidden more ih => exact Nat.le_trans ih (Nat.le_of_lt (anyItemShortens _ _ _ _ scan))
  | table top scan table more ih =>
    subst top
    have item := topItemAfter scan
    have after := Header.afterShorter ‹_›
    omega

theorem Passes.items (passes : Passes scope c c') (sound : c.Sound)
    (free : scope = none → ¬DeclaresSymbols c.rest) :
    (scope = none → ¬DeclaresSymbols c'.rest) ∧
      ∀ shown, Items scope c.rest shown ↔ Items scope c'.rest shown := by
  induction passes with
  | here => exact ⟨free, fun shown => Iff.rfl⟩
  | hidden scan hidden more ih =>
    have spelled := anyItemTakes sound scan
    obtain ⟨front, ahead, items⟩ := spelled.hidden hidden
    have later := ih (spelled.sound sound) fun top declares => by
      subst top
      refine free rfl ?_
      rw [ahead]
      exact declares.later items
    exact ⟨later.1, fun shown => (itemsHidden sound scan hidden).trans (later.2 shown)⟩
  | table top scan table more ih =>
    subst top
    exact absurd ((anyItemTakes sound scan).declares table) (free rfl)

end Scan

namespace Scan.Meets

open Grammar

variable {scope : Option Container} {c : Cursor} {h : Header}

theorem shorter (meets : Meets scope c (.value h)) :
    h.body.rest.length < c.rest.length ∧ h.after.rest.length < c.rest.length := by
  cases meets with
  | @value c' c'' h passes inside scan plain =>
    have less := passes.neverGrows
    have body := h.bodyShorter
    have after := h.afterShorter
    have start : h.start.rest.length < c'.rest.length := by
      cases scope with
      | none => exact topItemAfter scan
      | some kind =>
        obtain ⟨item, c1, read, same⟩ := bindOk scan
        cases item <;> cases same
        exact itemAfter read
    omega

theorem spelled (meets : Meets scope c (.value h)) (sound : c.Sound) :
    ∃ c', c'.Sound ∧ Spelled scope c' (.value h) h.start ∧ (scope = none → h.isTable = false) := by
  cases meets with
  | value passes inside scan plain =>
    have there := passes.sound sound
    have spelled := anyItemTakes there scan
    refine ⟨_, there, ?_, plain⟩
    cases spelled with
    | value name value ahead found => exact .value name value ahead found

theorem behind (meets : Meets scope c (.value h)) (sound : c.Sound) :
    h.body.Sound ∧ h.after.Sound := by
  obtain ⟨c', _, spelled, _⟩ := meets.spelled sound
  exact spelled.behind

variable {shown : List Outline} (sound : c.Sound) (free : scope = none → ¬DeclaresSymbols c.rest)
include sound free

theorem endedItems (meets : Meets scope c .ended) : Items scope c.rest shown ↔ shown = [] := by
  cases meets with
  | ended passes ended =>
    have there := passes.sound sound
    rw [(passes.items sound free).2 shown, itemsIff there]
    have nothing := there.atEnd.mp ended
    refine ⟨fun begins => ?_, ?_⟩
    · cases begins with
      | done => rfl
      | hidden scan | value scan => exact absurd nothing (anyItemSome scan)
    · rintro rfl
      exact .done nothing

theorem failedItems (meets : Meets scope c .failed) : ¬Items scope c.rest shown := by
  cases meets with
  | @failed c' c'' e passes inside scan =>
    have there := passes.sound sound
    rw [(passes.items sound free).2 shown, itemsIff there]
    intro begins
    cases begins with
    | done ended =>
      rw [there.atEnd.mpr ended] at inside
      contradiction
    | hidden other | value other =>
      rw [scan] at other
      contradiction
  | unloaded passes top scan table =>
    subst top
    have declares := (anyItemTakes (passes.sound sound) scan).declares table
    exact absurd declares ((passes.items sound free).1 rfl)

theorem valueItems (meets : Meets scope c (.value h)) : Items scope c.rest shown ↔
    ∃ o later, shown = o :: later ∧ Outlined h o ∧ Items scope h.after.rest later := by
  cases meets with
  | value passes inside scan plain =>
    rw [(passes.items sound free).2 shown]
    exact itemsValue (passes.sound sound) scan

theorem onlyItems (meets : Meets scope c (.value h)) {o : Outline} {later : List Outline}
    (one : ∀ o', Outlined h o' ↔ o' = o)
    (rest : ∀ shown, Items scope h.after.rest shown ↔ shown = later) :
    Items scope c.rest shown ↔ shown = o :: later := by
  rw [meets.valueItems sound free]
  refine ⟨?_, ?_⟩
  · rintro ⟨o', later', rfl, outlined, more⟩
    rw [(one o').mp outlined, (rest later').mp more]
  · rintro rfl
    exact ⟨o, later, rfl, (one o).mpr rfl, (rest later).mpr rfl⟩

theorem stillFree (meets : Meets scope c (.value h)) {o : Outline} (outlined : Outlined h o) :
    scope = none → ¬DeclaresSymbols h.after.rest := by
  cases meets with
  | value passes inside scan plain =>
    intro top declares
    subst top
    obtain ⟨front, ahead, items⟩ := (anyItemTakes (passes.sound sound) scan).shown outlined
    refine (passes.items sound free).1 rfl ?_
    rw [ahead]
    exact declares.later items

end Scan.Meets

end Ion
