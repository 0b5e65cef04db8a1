import Ion.Proofs.Grammar

/-! Items follow the grammar: the scan of an item finds the header of every value of the grammar and
passes over its padding, and takes nothing else. -/
namespace Ion

namespace Grammar

theorem Symbols.nonempty {raw : Bytes} {sids : List Nat} (symbols : Symbols raw sids) :
    0 < raw.length ↔ sids ≠ [] := by
  cases symbols with
  | nil => simp
  | cons first rest =>
    have used := first.1.nonempty
    simp only [List.length_append, ne_eq, reduceCtorEq, not_false_eq_true, iff_true]
    omega

theorem Bare.stands {s : Shape} {type : ValueType} (bare : Bare s type) : s.Stands type :=
  ⟨bare.known, bare.content, fun more =>
    (Scan.valueLengthExact bare.known).finds bare.length (s.body ++ more)⟩

end Grammar

namespace Scan

open Grammar

variable {scope : Option Container} {offset : Nat} {field : Option Nat} {descriptor : UInt8}
  {c c' : Cursor}

theorem requireTakes {condition : Prop} [Decidable condition] {e : IonError} {a : Unit}
    (ok : require condition e c = .ok a c') : condition := by
  unfold require at ok
  split at ok
  · assumption
  · contradiction

theorem withinTakes {length : Nat} {a : Unit} (ok : within scope offset length c = .ok a c') :
    c.pos + length ≤ c.stop ∧ c' = c := by
  unfold within at ok
  split at ok
  · cases ok
    exact ⟨‹_›, rfl⟩
  · contradiction

theorem withinSplits {length : Nat} {a : Unit} (sound : c.Sound)
    (ok : within scope offset length c = .ok a c') :
    c' = c ∧ ∃ body more, c.rest = body ++ more ∧ body.length = length := by
  obtain ⟨room, rfl⟩ := withinTakes ok
  have enough : length ≤ c'.rest.length := by
    unfold Cursor.Sound at sound
    omega
  exact ⟨rfl, c'.rest.take length, c'.rest.drop length, (List.take_append_drop length c'.rest).symm,
    List.length_take_of_le enough⟩

theorem sidsUntilFinds {raw more : Bytes} {sids : List Nat} (symbols : Symbols raw sids)
    (sound : c.Sound) (ahead : c.rest = raw ++ more) :
    sidsUntil (c.pos + raw.length) c = .ok sids (c.advance raw.length) := by
  induction symbols generalizing c with
  | nil => rw [sidsUntil, if_neg (by simp), List.length_nil, Cursor.advanceNothing]
  | @cons raw sid rest sids first symbols ih =>
    rw [List.append_assoc] at ahead
    have positive := first.1.nonempty
    have read := sidExact.finds first _ c sound ahead
    have later := ih (sound.behind ahead) (Cursor.advanceRest ahead)
    have stop : c.pos + (raw ++ rest).length = (c.advance raw.length).pos + rest.length := by
      simp only [Cursor.advance, List.length_append, Nat.add_assoc]
    rw [sidsUntil, if_pos (by rw [List.length_append]; omega)]
    split
    · rename_i failed
      rw [read] at failed
      contradiction
    · rename_i ok
      rw [read] at ok
      cases ok
      rw [stop, later, List.length_append, Cursor.advanceAdvance]

theorem sidsUntilTakes {stop : Nat} {sids : List Nat} (sound : c.Sound)
    (ok : sidsUntil stop c = .ok sids c') :
    ∃ raw more, c.rest = raw ++ more ∧ c' = c.advance raw.length ∧ Symbols raw sids := by
  fun_induction sidsUntil stop c generalizing sids c' with
  | case1 | case2 => contradiction
  | case3 c inside sid c1 found rest c2 later ih =>
    cases ok
    obtain ⟨raw, more, ahead, rfl, symbol⟩ := sidExact.takes sound found
    obtain ⟨raw', more', behind, rfl, symbols⟩ := ih (sound.behind ahead) later
    rw [Cursor.advanceRest ahead] at behind
    refine ⟨raw ++ raw', more', ?_, ?_, .cons symbol symbols⟩
    · rw [ahead, behind, List.append_assoc]
    · rw [List.length_append, Cursor.advanceAdvance]
  | case4 c outside =>
    cases ok
    exact ⟨[], c.rest, rfl, (Cursor.advanceNothing c).symm, .nil⟩

theorem annotationsFinds {counted names more : Bytes} {sids : List Nat} {stop : Nat}
    (counts : Number counted names.length) (symbols : Symbols names sids) (annotated : sids ≠ [])
    (sound : c.Sound) (ahead : c.rest = counted ++ (names ++ more))
    (room : c.pos + (counted.length + names.length) ≤ stop) (scope : Option Container) (offset : Nat) :
    annotations scope offset stop c = .ok sids (c.advance (counted.length + names.length)) := by
  have counted' := varUIntExact.finds counts _ c sound ahead
  have inner := sound.behind ahead
  have rest := Cursor.advanceRest ahead
  have stops : 0 < names.length ∧ (c.advance counted.length).pos + names.length ≤ stop :=
    ⟨symbols.nonempty.mpr annotated, by rw [Cursor.advancePos]; omega⟩
  unfold annotations
  rw [bindRuns counted', bindRuns (withinMet inner rest scope offset), bindGot, bindRuns (requireMet stops _ _),
    bindRuns (sidsUntilFinds symbols inner rest), bindGot, bindRuns (requireMet (Cursor.advancePos _ _) _ _),
    Cursor.advanceAdvance]
  rfl

theorem annotationsTakes {stop : Nat} {sids : List Nat} (sound : c.Sound)
    (ok : annotations scope offset stop c = .ok sids c') :
    ∃ counted names more, c.rest = counted ++ (names ++ more) ∧
      c' = c.advance (counted.length + names.length) ∧ c'.pos ≤ stop ∧
      Number counted names.length ∧ Symbols names sids ∧ sids ≠ [] := by
  obtain ⟨length, c1, counted, ok⟩ := bindOk ok
  obtain ⟨counts, more, ahead, rfl, number⟩ := varUIntExact.takes sound counted
  obtain ⟨_, c2, covers, ok⟩ := bindOk ok
  cases (withinTakes covers).2
  obtain ⟨_, c3, same, ok⟩ := bindOk ok
  cases same
  obtain ⟨_, c4, fills, ok⟩ := bindOk ok
  have limits := requireTakes fills
  cases requireStays fills
  obtain ⟨found, c5, listed, ok⟩ := bindOk ok
  obtain ⟨names, rest, behind, rfl, symbols⟩ := sidsUntilTakes (sound.behind ahead) listed
  rw [Cursor.advanceRest ahead] at behind
  obtain ⟨_, c6, same, ok⟩ := bindOk ok
  cases same
  obtain ⟨_, c7, ends, ok⟩ := bindOk ok
  have exact := requireTakes ends
  cases requireStays ends
  cases ok
  have size : names.length = length := by
    simp only [Cursor.advancePos] at exact
    omega
  subst size
  refine ⟨counts, names, rest, by rw [ahead, behind], Cursor.advanceAdvance _ _ _, ?_, number, symbols,
    symbols.nonempty.mp limits.1⟩
  rw [exact]
  exact limits.2

end Scan

theorem Header.Found.from {h : Header} {s : Shape} {type : ValueType} {field : Option Nat}
    {sids : List Nat} {c : Cursor} {n size whole : Nat} {more : Bytes}
    (found : h.Found s type field sids (c.advance n) size more) (total : n + size = whole) :
    h.Found s type field sids c whole more :=
  { found with after := by rw [found.after, Cursor.advanceAdvance, total] }

namespace Scan

open Grammar

variable {scope : Option Container} {offset : Nat} {field : Option Nat} {descriptor : UInt8}
  {c c' : Cursor}

theorem valueTakes {sids : List Nat} {h : Header} (sound : c.Sound)
    (ok : value scope offset field sids descriptor c = .ok h c') :
    ∃ s type more, s.descriptor = descriptor ∧
      ValueType.ofCode? (highNibble descriptor) = some type ∧
      BodyLength type descriptor s.head s.body.length ∧ c.rest = s.head ++ (s.body ++ more) ∧
      h.Found s type field sids c (s.head.length + s.body.length) more := by
  cases known : ValueType.ofCode? (highNibble descriptor) with
  | none =>
    rw [value, known] at ok
    contradiction
  | some type =>
    rw [value, known] at ok
    obtain ⟨length, c1, measured, ok⟩ := bindOk ok
    obtain ⟨head, more, ahead, rfl, counts⟩ := (valueLengthExact known).takes sound measured
    obtain ⟨_, c2, covers, ok⟩ := bindOk ok
    obtain ⟨rfl, body, rest, behind, size⟩ := withinSplits (sound.behind ahead) covers
    obtain ⟨_, c3, same, ok⟩ := bindOk ok
    cases same
    cases ok
    subst size
    refine ⟨⟨descriptor, head, body⟩, type, rest, rfl, rfl, counts, ?_, rfl, rfl, rfl, rfl, rfl,
      sound.behind ahead, behind, Cursor.advanceAdvance _ _ _⟩
    rw [Cursor.advanceRest ahead] at behind
    rw [ahead, behind]

theorem wrapperFinds {outer s : Shape} {counted names more : Bytes} {sids : List Nat}
    {type : ValueType} (wrapper : Wrapper outer counted names sids s type) (sound : c.Sound)
    (ahead : c.rest = outer.head ++ (outer.body ++ more)) (scope : Option Container) (offset : Nat)
    (field : Option Nat) :
    ∃ h, wrapped scope offset field outer.descriptor c = .ok h h.start ∧
      h.Found s type field sids c (outer.head.length + outer.body.length) more := by
  have stands := wrapper.value.stands
  have measured := (bodyLengthExact _).finds wrapper.length _ c sound ahead
  have inner := sound.behind ahead
  have rest := Cursor.advanceRest ahead
  have covers := withinMet inner rest scope offset
  have bytes : counted.length + names.length + 1 + (s.head.length + s.body.length) =
      outer.body.length := by
    rw [wrapper.filled]
    simp only [List.length_append, Shape.bytes, List.length_cons]
    omega
  rw [wrapper.filled, List.append_assoc, List.append_assoc] at rest
  have room : (c.advance outer.head.length).pos + (counted.length + names.length) ≤
      (c.advance outer.head.length).pos + outer.body.length := by omega
  have named :=
    annotationsFinds wrapper.counts wrapper.names wrapper.annotated inner rest room scope offset
  rw [← List.append_assoc] at rest
  have listed : (c.advance outer.head.length).advance (counted.length + names.length) =
      (c.advance outer.head.length).advance (counted ++ names).length := by rw [List.length_append]
  have behind := Cursor.advanceRest rest
  rw [← listed] at behind
  have next := inner.behind rest
  rw [← listed] at next
  have first := byteReads next behind
  obtain ⟨value, valueRest⟩ := Cursor.behindByte next behind
  have content : highNibble s.descriptor ≠ wrapperCode ∧ ¬isPadding s.descriptor :=
    ⟨stands.noWrapper, by rw [stands.content]; decide⟩
  obtain ⟨h, found, shown⟩ :=
    stands.value value (valueRest.trans (List.append_assoc ..)) scope offset field sids
  have ends : h.after.pos = (c.advance outer.head.length).pos + outer.body.length := by
    rw [shown.after]
    simp only [Cursor.advancePos]
    omega
  refine ⟨h, ?_, ((shown.from rfl).from rfl).from (by omega)⟩
  unfold wrapped
  dsimp only
  rw [bindRuns (requireMet wrapper.nibble _ _), bindRuns measured, bindRuns covers, bindGot, bindRuns named,
    bindRuns first, bindRuns (requireMet content _ _), bindRuns found, bindRuns (requireMet ends _ _)]
  rfl

theorem wrapperTakes {h : Header} (wraps : highNibble descriptor = wrapperCode) (sound : c.Sound)
    (ok : wrapped scope offset field descriptor c = .ok h c') :
    ∃ outer counted names sids s type more, outer.descriptor = descriptor ∧
      Wrapper outer counted names sids s type ∧ c.rest = outer.head ++ (outer.body ++ more) ∧
      h.Found s type field sids c (outer.head.length + outer.body.length) more := by
  obtain ⟨_, c1, nibble, ok⟩ := bindOk ok
  have nibbles := requireTakes nibble
  cases requireStays nibble
  obtain ⟨length, c2, measured, ok⟩ := bindOk ok
  obtain ⟨head, more, ahead, rfl, counts⟩ := (bodyLengthExact _).takes sound measured
  obtain ⟨_, c3, covers, ok⟩ := bindOk ok
  obtain ⟨rfl, body, more', split, size⟩ := withinSplits (sound.behind ahead) covers
  obtain ⟨_, c4, same, ok⟩ := bindOk ok
  cases same
  obtain ⟨sids, c5, listed, ok⟩ := bindOk ok
  obtain ⟨counted, names, left, named, rfl, _, number, symbols, annotated⟩ :=
    annotationsTakes (sound.behind ahead) listed
  have inner := sound.behind ahead
  rw [← List.append_assoc] at named
  have next := inner.behind named
  have nextRest := Cursor.advanceRest named
  rw [List.length_append] at next nextRest
  obtain ⟨first, c6, byte, ok⟩ := bindOk ok
  obtain ⟨raw, left', ahead', rfl, rfl⟩ := byteExact.takes next byte
  obtain ⟨_, c7, content, ok⟩ := bindOk ok
  have bare := requireTakes content
  cases requireStays content
  obtain ⟨found, c8, read, ok⟩ := bindOk ok
  obtain ⟨s, type, rest, descriptor', known, bodies, ahead'', shown⟩ :=
    valueTakes (next.behind ahead') read
  obtain ⟨_, c9, ends, ok⟩ := bindOk ok
  have exact := requireTakes ends
  cases requireStays ends
  cases ok
  have whole : left = s.bytes ++ rest := by
    rw [Cursor.advanceRest ahead'] at ahead''
    rw [← nextRest, ahead', ahead'', Shape.bytes, descriptor']
    simp
  have total : counted.length + names.length + s.bytes.length = body.length := by
    rw [shown.after] at exact
    simp only [Cursor.advancePos, List.length_singleton] at exact
    simp only [Shape.bytes, List.length_cons, List.length_append]
    omega
  have parts : body ++ more' = counted ++ (names ++ s.bytes) ++ rest := by
    rw [← split, named, whole]
    simp only [List.append_assoc]
  obtain ⟨filled, rfl⟩ := List.append_inj parts (by
    simp only [List.length_append]
    omega)
  subst descriptor' size
  refine ⟨⟨descriptor, head, body⟩, counted, names, sids, s, type, more', rfl,
    ⟨wraps, nibbles, counts, filled, number, symbols, annotated, known, ?_, bodies⟩, ?_,
    ((shown.from rfl).from rfl).from ?_⟩
  · simpa using bare.2
  · rw [ahead, ← split, Cursor.advanceRest ahead]
  · simp only [Shape.bytes, List.length_cons, List.length_append] at total
    simp only [List.length_singleton]
    omega

theorem paddingFinds {s : Shape} {more : Bytes} (form : Padding s) (sound : c.Sound)
    (ahead : c.rest = s.head ++ (s.body ++ more)) (scope : Option Container) (offset : Nat) :
    padding scope offset s.descriptor c = .ok () (c.advance (s.head.length + s.body.length)) := by
  have measured := (bodyLengthExact _).finds form.length _ c sound ahead
  have covers := withinMet (sound.behind ahead) (Cursor.advanceRest ahead) scope offset
  unfold padding
  rw [bindRuns measured, bindRuns covers, ← Cursor.advanceAdvance]
  rfl

theorem paddingTakes {a : Unit} (pads : isPadding descriptor = true) (sound : c.Sound)
    (ok : padding scope offset descriptor c = .ok a c') :
    ∃ s more, s.descriptor = descriptor ∧ Padding s ∧ c.rest = s.head ++ (s.body ++ more) ∧
      c' = c.advance (s.head.length + s.body.length) := by
  obtain ⟨length, c1, measured, ok⟩ := bindOk ok
  obtain ⟨head, more, ahead, rfl, counts⟩ := (bodyLengthExact _).takes sound measured
  obtain ⟨_, c2, covers, ok⟩ := bindOk ok
  obtain ⟨rfl, body, more', split, size⟩ := withinSplits (sound.behind ahead) covers
  subst size
  refine ⟨⟨descriptor, head, body⟩, more', rfl, ⟨pads, counts⟩, ?_, ?_⟩
  · rw [ahead, ← split, Cursor.advanceRest ahead]
  · rw [← Cursor.advanceAdvance]
    cases ok
    rfl

theorem itemPasses {named more : Bytes} {s : Shape} (name : Name scope named field)
    (form : Padding s) (sound : c.Sound) (ahead : c.rest = named ++ (s.bytes ++ more)) :
    item scope c = .ok none (c.advance (named ++ s.bytes).length) := by
  have called := (fieldNameExact scope).finds name _ c sound ahead
  have inner := sound.behind ahead
  have rest := Cursor.advanceRest ahead
  have first := byteReads inner rest
  obtain ⟨next, nextRest⟩ := Cursor.behindByte inner rest
  have passed := paddingFinds form next (nextRest.trans (List.append_assoc ..)) scope c.pos
  unfold item
  rw [bindGot, bindRuns called, bindRuns first, if_pos form.padding, bindRuns passed]
  simp only [Cursor.advanceAdvance, Shape.bytes, List.length_append, List.length_cons, pure,
    EStateM.pure, EStateM.Result.ok.injEq, true_and]
  congr 1
  omega

theorem itemFinds {named whole more : Bytes} {sids : List Nat} {s : Shape} {type : ValueType}
    (name : Name scope named field) (value : Value whole sids s type) (sound : c.Sound)
    (ahead : c.rest = named ++ (whole ++ more)) :
    ∃ h, item scope c = .ok (some h) h.start ∧
      h.Found s type field sids c (named ++ whole).length more := by
  have called := (fieldNameExact scope).finds name _ c sound ahead
  have inner := sound.behind ahead
  have rest := Cursor.advanceRest ahead
  cases value with
  | bare value =>
    have stands := value.stands
    have first := byteReads inner rest
    obtain ⟨next, nextRest⟩ := Cursor.behindByte inner rest
    obtain ⟨h, found, shown⟩ :=
      stands.value next (nextRest.trans (List.append_assoc ..)) scope c.pos field []
    refine ⟨h, ?_, (shown.from rfl).from ?_⟩
    · unfold item
      rw [bindGot, bindRuns called, bindRuns first, if_neg (by rw [stands.content]; decide),
        if_neg stands.noWrapper, bindRuns found]
      rfl
    · simp only [Shape.bytes, List.length_append, List.length_cons]
      omega
  | @wrapped outer counted names sids s type wrapper =>
    have content : isPadding outer.descriptor = false := by
      rw [isPadding, wrapper.wraps]
      rfl
    have first := byteReads inner rest
    obtain ⟨next, nextRest⟩ := Cursor.behindByte inner rest
    obtain ⟨h, found, shown⟩ :=
      wrapperFinds wrapper next (nextRest.trans (List.append_assoc ..)) scope c.pos field
    refine ⟨h, ?_, (shown.from rfl).from ?_⟩
    · unfold item
      rw [bindGot, bindRuns called, bindRuns first, if_neg (by rw [content]; decide), if_pos wrapper.wraps,
        bindRuns found]
      rfl
    · simp only [Shape.bytes, List.length_append, List.length_cons]
      omega

end Scan

def TopItem.ofItem : Option Header → TopItem
  | none => .padding
  | some h => .value h

theorem TopItem.markerHidden (h : Header) : marker ≠ value h := nofun

theorem TopItem.paddingHidden (h : Header) : padding ≠ value h := nofun

namespace Grammar

inductive Spelled (scope : Option Container) (c : Cursor) : TopItem → Cursor → Prop
  | marker {more} (top : scope = none) (ahead : c.rest = versionMarker ++ more) :
      Spelled scope c .marker (c.advance versionMarker.length)
  | padding {named field s more} (name : Name scope named field) (padding : Padding s)
      (ahead : c.rest = named ++ (s.bytes ++ more)) :
      Spelled scope c .padding (c.advance (named ++ s.bytes).length)
  | value {named field whole sids s type more} {h : Header} (name : Name scope named field)
      (value : Value whole sids s type) (ahead : c.rest = named ++ (whole ++ more))
      (found : h.Found s type field sids c (named ++ whole).length more) :
      Spelled scope c (.value h) h.start

end Grammar

namespace Scan

open Grammar

variable {scope : Option Container} {c c' : Cursor}

theorem itemTakes {found : Option Header} (sound : c.Sound) (ok : item scope c = .ok found c') :
    Spelled scope c (.ofItem found) c' := by
  obtain ⟨_, c1, same, ok⟩ := bindOk ok
  cases same
  obtain ⟨field, c2, called, ok⟩ := bindOk ok
  obtain ⟨named, more, ahead, rfl, name⟩ := (fieldNameExact scope).takes sound called
  have inner := sound.behind ahead
  obtain ⟨descriptor, c3, byte, ok⟩ := bindOk ok
  obtain ⟨raw, more', ahead', rfl, rfl⟩ := byteExact.takes inner byte
  have next := inner.behind ahead'
  rw [Cursor.advanceRest ahead] at ahead'
  have whole {s : Shape} {left : Bytes} (same : s.descriptor = descriptor)
      (behind : ((c.advance named.length).advance [descriptor].length).rest =
        s.head ++ (s.body ++ left)) : c.rest = named ++ (s.bytes ++ left) := by
    rw [Cursor.advanceRest ((Cursor.advanceRest ahead).trans ahead')] at behind
    rw [ahead, ahead', behind, ← same]
    simp [Shape.bytes]
  have size (s : Shape) : named.length + ([descriptor].length + (s.head.length + s.body.length)) =
      (named ++ s.bytes).length := by
    simp only [Shape.bytes, List.length_append, List.length_cons, List.length_nil]
    omega
  split at ok
  · rename_i pads
    obtain ⟨_, c4, passed, ok⟩ := bindOk ok
    cases ok
    obtain ⟨s, left, same, form, behind, rfl⟩ := paddingTakes pads next passed
    rw [Cursor.advanceAdvance, Cursor.advanceAdvance, size]
    exact .padding name form (whole same behind)
  · rename_i content
    have content : isPadding descriptor = false := by simpa using content
    split at ok
    · rename_i wraps
      obtain ⟨h, c4, read, ok⟩ := bindOk ok
      cases ok
      obtain ⟨outer, counted, names, sids, s, type, left, same, wrapper, behind, shown⟩ :=
        wrapperTakes wraps next read
      rw [← wrappedStart read]
      exact .value name (.wrapped wrapper) (whole same behind) ((shown.from rfl).from (size outer))
    · obtain ⟨h, c4, read, ok⟩ := bindOk ok
      cases ok
      obtain ⟨s, type, left, rfl, known, bodies, behind, shown⟩ := valueTakes next read
      rw [← valueStart read]
      exact .value name (.bare ⟨known, content, bodies⟩) (whole rfl behind)
        ((shown.from rfl).from (size s))

def anyItem : Option Container → Scan TopItem
  | none => topItem
  | some kind => do return .ofItem (← item (some kind))

theorem anyItemInside {kind : Container} {found : Option Header}
    (scan : item (some kind) c = .ok found c') : anyItem (some kind) c = .ok (.ofItem found) c' :=
  (bindRuns scan).trans rfl

theorem anyItemFails {kind : Container} {e : IonError} (scan : item (some kind) c = .error e c') :
    anyItem (some kind) c = .error e c' := by
  simp only [anyItem, bind, EStateM.bind, scan]

theorem topNext {b : UInt8} {more : Bytes} (sound : c.Sound) (ahead : c.rest = b :: more)
    (other : b ≠ 0xE0) {found : Option Header} (ok : item none c = .ok found c') :
    topItem c = .ok (.ofItem found) c' := by
  unfold topItem
  rw [bindRuns (peekReads sound ahead), if_neg other, bindRuns ok]
  cases found <;> rfl

theorem topItemTakes {found : TopItem} (sound : c.Sound) (ok : topItem c = .ok found c') :
    Spelled none c found c' := by
  obtain ⟨head, c1, peeked, ok⟩ := bindOk ok
  cases (peekStays peeked).1
  split at ok
  · obtain ⟨raw, c2, taken, ok⟩ := bindOk ok
    obtain ⟨_, c3, marker, ok⟩ := bindOk ok
    have four := requireTakes marker
    cases requireStays marker
    cases ok
    by_cases room : c.pos + 4 ≤ c.stop
    · simp only [lift, EStateM.adaptExcept, Cursor.bytes, Cursor.take, if_pos room,
        EStateM.Result.ok.injEq] at taken
      have ahead := List.take_append_drop 4 c.rest
      rw [taken.1, four] at ahead
      rw [← taken.2]
      exact .marker rfl ahead.symm
    · simp [lift, EStateM.adaptExcept, Cursor.bytes, Cursor.take, room] at taken
  · obtain ⟨item, c2, read, ok⟩ := bindOk ok
    have spelled := itemTakes sound read
    cases item <;> cases ok <;> exact spelled

theorem anyItemTakes {found : TopItem} (sound : c.Sound) (ok : anyItem scope c = .ok found c') :
    Spelled scope c found c' := by
  cases scope with
  | none => exact topItemTakes sound ok
  | some kind =>
    obtain ⟨item, c1, read, ok⟩ := bindOk ok
    cases ok
    exact itemTakes sound read

end Scan

namespace Grammar

open Scan

variable {scope : Option Container} {c : Cursor}

theorem nameOutside {named : Bytes} {field : Option Nat} (name : Name none named field) :
    named = [] := by
  cases name with
  | none => rfl
  | some member => contradiction

theorem Padding.noMarker {s : Shape} (padding : Padding s) : s.descriptor ≠ 0xE0 := by
  intro marker
  have pads := padding.padding
  rw [marker] at pads
  exact absurd pads (by decide)

theorem Value.noMarker {whole : Bytes} {sids : List Nat} {s : Shape} {type : ValueType}
    (value : Value whole sids s type) : ∃ b more, whole = b :: more ∧ b ≠ 0xE0 := by
  cases value with
  | bare value => exact ⟨_, _, rfl, value.stands.noMarker⟩
  | @wrapped outer counted names sids s type wrapper =>
    refine ⟨_, _, rfl, fun marker => ?_⟩
    have nibble := wrapper.nibble.1
    rw [marker] at nibble
    exact absurd nibble (by decide)

theorem anyItemFinds {named whole more : Bytes} {field : Option Nat} {sids : List Nat} {s : Shape}
    {type : ValueType} (name : Name scope named field) (value : Value whole sids s type)
    (sound : c.Sound) (ahead : c.rest = named ++ (whole ++ more)) :
    ∃ h, anyItem scope c = .ok (.value h) h.start ∧
      h.Found s type field sids c (named ++ whole).length more := by
  obtain ⟨h, read, found⟩ := itemFinds name value sound ahead
  refine ⟨h, ?_, found⟩
  cases scope with
  | none =>
    cases nameOutside name
    obtain ⟨b, left, rfl, other⟩ := value.noMarker
    exact topNext sound ahead other read
  | some kind => exact anyItemInside read

theorem anyItemPasses {named more : Bytes} {field : Option Nat} {s : Shape}
    (name : Name scope named field) (padding : Padding s) (sound : c.Sound)
    (ahead : c.rest = named ++ (s.bytes ++ more)) :
    anyItem scope c = .ok .padding (c.advance (named ++ s.bytes).length) := by
  have read := itemPasses name padding sound ahead
  cases scope with
  | none =>
    cases nameOutside name
    exact topNext sound ahead padding.noMarker read
  | some kind => exact anyItemInside read

end Grammar

end Ion
