import Ion.Proofs.Bounds

/-! Reading bytes that break off. What was scanned of them is scanned in the same way where more bytes
follow, so a reader of a part from the front shows nothing that a reader of the whole does not show. -/
namespace Ion

open Scan Grammar

def Cursor.followed (tail : Bytes) (c : Cursor) : Cursor :=
  ⟨c.pos, c.stop + tail.length, c.rest ++ tail⟩

def Header.followed (tail : Bytes) (h : Header) : Header := { h with start := h.start.followed tail }

def TopItem.followed (tail : Bytes) : TopItem → TopItem
  | marker => marker
  | padding => padding
  | value h => value (h.followed tail)

namespace Cursor

variable {c : Cursor}

theorem followedSound (sound : c.Sound) (tail : Bytes) : (c.followed tail).Sound := by
  simp only [Sound, followed, List.length_append] at *
  omega

theorem advanceFollowed {raw more : Bytes} (ahead : c.rest = raw ++ more) (tail : Bytes) :
    (c.followed tail).advance raw.length = (c.advance raw.length).followed tail := by
  simp [followed, advance, ahead]

theorem aheadFollowed {raw more : Bytes} (ahead : c.rest = raw ++ more) (tail : Bytes) :
    (c.followed tail).rest = raw ++ (more ++ tail) := by
  simp [followed, ahead]

end Cursor

namespace Header.Found

variable {h h' : Header} {s : Shape} {type : ValueType} {field : Option Nat} {sids : List Nat}
  {c : Cursor} {size : Nat} {more : Bytes}

theorem followed {tail : Bytes} (found : h.Found s type field sids c size more)
    (again : h'.Found s type field sids (c.followed tail) size (more ++ tail)) :
    h' = h.followed tail := by
  obtain ⟨_, _, _, _, ⟨pos, stop, rest⟩, _⟩ := h
  obtain ⟨_, _, _, _, ⟨pos', stop', rest'⟩, _⟩ := h'
  obtain ⟨rfl, rfl, rfl, rfl, rfl, -, ahead, after⟩ := found
  obtain ⟨rfl, rfl, rfl, rfl, rfl, -, ahead', after'⟩ := again
  -- both bodies end at the same place and have one length, so they begin at the same place
  simp only [Header.after, Cursor.advance, Cursor.followed, Cursor.mk.injEq] at after after' ahead ahead'
  obtain ⟨ends, rfl, -⟩ := after
  obtain ⟨ends', rfl, -⟩ := after'
  subst ahead ahead'
  simp only [Header.followed, Cursor.followed, List.append_assoc, Header.mk.injEq, Cursor.mk.injEq,
    and_true, true_and]
  omega

end Header.Found

namespace Grammar

variable {scope : Option Container} {c c' : Cursor}

theorem Spelled.stop {found : TopItem} (spelled : Spelled scope c found c') : c'.stop = c.stop := by
  cases spelled with
  | marker | padding => rfl
  | value name value ahead found =>
    have stop := congrArg Cursor.stop found.after
    exact stop

theorem Spelled.afterStop {h : Header} (spelled : Spelled scope c (.value h) c') :
    h.after.stop = c.stop := by
  have stop := spelled.stop
  cases spelled
  exact stop

end Grammar

theorem Scan.headerFollowed {c c' : Cursor} {h : Header} (sound : c.Sound)
    (scan : topItem c = .ok (.value h) c') (tail : Bytes) :
    (h.followed tail).body = h.body ∧ (h.followed tail).after = h.after.followed tail := by
  cases topItemTakes sound scan with
  | value name value ahead found =>
    simp [Header.followed, Header.body, Header.after, Cursor.part, Cursor.advance, Cursor.followed,
      found.ahead, found.length]

theorem Scan.topItemFollowed {c c' : Cursor} {found : TopItem} (sound : c.Sound)
    (scan : topItem c = .ok found c') (tail : Bytes) :
    topItem (c.followed tail) = .ok (found.followed tail) (c'.followed tail) := by
  have longer := Cursor.followedSound sound tail
  cases topItemTakes sound scan with
  | marker top ahead =>
    rw [takesMarker longer (Cursor.aheadFollowed ahead tail), Cursor.advanceFollowed ahead]
    rfl
  | @padding named field s more name form ahead =>
    have rest : (c.followed tail).rest = named ++ (s.bytes ++ (more ++ tail)) := by
      simp [Cursor.followed, ahead]
    have passes : topItem (c.followed tail) = .ok .padding _ := anyItemPasses name form longer rest
    rw [← List.append_assoc] at ahead
    rw [passes, Cursor.advanceFollowed ahead]
    rfl
  | @value named field whole sids s type more h name value ahead found =>
    have rest : (c.followed tail).rest = named ++ (whole ++ (more ++ tail)) := by
      simp [Cursor.followed, ahead]
    obtain ⟨h', again, found'⟩ := anyItemFinds name value longer rest
    cases found.followed found'
    exact again

theorem SymbolTable.loadSame {catalog : Catalog} {symbols loaded : SymbolTable} {h h' : Header}
    (body : h'.body = h.body) (loads : symbols.load catalog h = .ok loaded) :
    symbols.load catalog h' = .ok loaded := by
  unfold load at *
  cases read : TableEntry.read h with
  | error halt => simp [read, bind, Except.bind] at loads
  | ok entry =>
    have again : TableEntry.read h' = .ok entry := by
      rw [TableEntry.read, Header.fold, mapErrorOk] at *
      rw [body]
      exact read
    simp only [read, again, bind, Except.bind] at *
    exact mapErrorOk.mpr (mapErrorOk.mp loads)

structure Shown where
  type : ValueType
  null : Bool
  annotations : List Nat
  payload : Bytes
  symbols : SymbolTable
  deriving DecidableEq

def Header.shown (symbols : SymbolTable) (h : Header) : Shown :=
  ⟨h.type, h.isNull, h.annotations, h.payload, symbols⟩

/-- Scanning one top-level item after the other leads from `c` to `c'`, past these values. Both stand
between two items, or before the first or behind the last. -/
inductive Leads (catalog : Catalog) :
    SymbolTable → Cursor → List Shown → SymbolTable → Cursor → Prop
  | here {symbols c} : Leads catalog symbols c [] symbols c
  | marker {symbols c c' values last c''} (scan : topItem c = .ok .marker c')
      (more : Leads catalog .system c' values last c'') : Leads catalog symbols c values last c''
  | padding {symbols c c' values last c''} (scan : topItem c = .ok .padding c')
      (more : Leads catalog symbols c' values last c'') : Leads catalog symbols c values last c''
  | table {symbols c c' h loaded values last c''} (scan : topItem c = .ok (.value h) c')
      (table : h.isTable = true) (loads : symbols.load catalog h = .ok loaded)
      (more : Leads catalog loaded h.after values last c'') : Leads catalog symbols c values last c''
  | value {symbols c c' h values last c''} (scan : topItem c = .ok (.value h) c')
      (plain : h.isTable = false) (more : Leads catalog symbols h.after values last c'') :
      Leads catalog symbols c (h.shown symbols :: values) last c''

structure Sequence where
  values : List Shown
  failure : Option IonError
  deriving DecidableEq

def Sequence.behind (values : List Shown) (later : Sequence) : Sequence :=
  ⟨values ++ later.values, later.failure⟩

namespace Reader

def value? (r : Reader) : Option Shown := r.current?.map (Header.shown r.symbols)

def unread (r : Reader) : Nat := (r.ahead?.map fun c => c.rest.length).getD 0

theorem nextAhead (r : Reader) :
    next r = match r.ahead? with
      | none => .ok none r
      | some c => advance c r := by
  cases stands : r.position <;> simp only [next, ahead?, stands]

theorem nextReads {r on : Reader} {type : ValueType} (found : next r = .ok (some type) on) :
    on.unread < r.unread := by
  rw [nextAhead] at found
  cases ahead : r.ahead? with
  | none => simp [ahead] at found
  | some c =>
    have step := r.advanced c
    simp only [ahead] at found
    rw [found] at step
    cases step with
    | @found h on meets stands =>
      have behind : on.ahead? = some h.after := by simp only [ahead?, stands]
      simpa only [unread, ahead, behind, Option.map_some, Option.getD_some] using meets.shorter.2

def sequence (r : Reader) : Sequence :=
  match _h : next r with
  | .ok (some _) on => on.sequence.behind on.value?.toList
  | .ok none _ => ⟨[], none⟩
  | .error e _ => ⟨[], some e⟩
termination_by r.unread
decreasing_by exact nextReads ‹_›

theorem sequenceStep (r : Reader) :
    r.sequence = match next r with
      | .ok (some _) on => on.sequence.behind on.value?.toList
      | .ok none _ => ⟨[], none⟩
      | .error e _ => ⟨[], some e⟩ := by
  rw [sequence]
  split <;> rename_i step <;> rw [step]

def between (catalog : Catalog) (symbols : SymbolTable) (c : Cursor) : Reader :=
  ⟨catalog, symbols, [], .before c⟩

theorem sequenceBetween (catalog : Catalog) (symbols : SymbolTable) (c : Cursor) :
    (between catalog symbols c).sequence =
      match nextTop catalog symbols c with
      | (_, .exhausted _) => ⟨[], none⟩
      | (_, .halted halt) => ⟨[], some halt.error⟩
      | (symbols, .value h) => (between catalog symbols h.after).sequence.behind [h.shown symbols] := by
  rw [sequenceStep]
  unfold between next advance
  dsimp only
  cases walk : nextTop catalog symbols c with
  | mk symbols' step =>
    cases step with
    | exhausted | halted => rfl
    | value h =>
      -- a reader on the value goes on like one behind it
      dsimp only
      rw [sequenceStep, sequenceStep ⟨catalog, symbols', [], .before h.after⟩]
      rfl

end Reader

def TopStep.Reached (catalog : Catalog) (symbols : SymbolTable) (c : Cursor) (last : SymbolTable) :
    TopStep → Prop
  | exhausted c' => c'.atEnd = true ∧ Leads catalog symbols c [] last c'
  | halted _ => True
  | value h => Leads catalog symbols c [h.shown last] last h.after

theorem TopStep.Reached.further {catalog : Catalog} {symbols symbols' last : SymbolTable}
    {c c' : Cursor} {step : TopStep} (reached : step.Reached catalog symbols' c' last)
    (first : ∀ {values c''}, Leads catalog symbols' c' values last c'' →
      Leads catalog symbols c values last c'') : step.Reached catalog symbols c last := by
  cases step with
  | exhausted => exact ⟨reached.1, first reached.2⟩
  | halted => trivial
  | value => exact first reached

theorem nextTopReached (catalog : Catalog) (symbols : SymbolTable) (c : Cursor) :
    (nextTop catalog symbols c).2.Reached catalog symbols c (nextTop catalog symbols c).1 := by
  fun_induction nextTop catalog symbols c with
  | case1 symbols c ended => exact ⟨ended, .here⟩
  | case2 => trivial
  | case3 symbols c inside c' scan ih => exact ih.further (.marker scan)
  | case4 symbols c inside c' scan ih => exact ih.further (.padding scan)
  | case5 symbols c inside h c' scan table loaded loads ih => exact ih.further (.table scan table loads)
  | case6 => trivial
  | case7 symbols c inside h c' scan table =>
    exact .value scan (by simpa using table) .here

namespace Leads

variable {catalog : Catalog} {symbols last : SymbolTable} {c c' : Cursor} {values : List Shown}

theorem trans {last' : SymbolTable} {c'' : Cursor} {values' : List Shown}
    (one : Leads catalog symbols c values last c') (two : Leads catalog last c' values' last' c'') :
    Leads catalog symbols c (values ++ values') last' c'' := by
  induction one with
  | here => exact two
  | marker scan more ih => exact .marker scan (ih two)
  | padding scan more ih => exact .padding scan (ih two)
  | table scan table loads more ih => exact .table scan table loads (ih two)
  | value scan plain more ih => exact .value scan plain (ih two)

theorem sequence (leads : Leads catalog symbols c values last c') :
    (Reader.between catalog symbols c).sequence =
      (Reader.between catalog last c').sequence.behind values := by
  induction leads with
  | here => rfl
  | marker scan more ih | padding scan more ih =>
    rw [Reader.sequenceBetween, nextTopScanned scan, ← Reader.sequenceBetween]
    exact ih
  | table scan table loads more ih =>
    rw [Reader.sequenceBetween, nextTopScanned scan]
    dsimp only
    rw [if_pos table, loads, ← Reader.sequenceBetween]
    exact ih
  | value scan plain more ih =>
    rw [Reader.sequenceBetween, nextTopScanned scan]
    dsimp only
    rw [plain]
    exact congrArg (Sequence.behind _) ih

theorem sound (leads : Leads catalog symbols c values last c') (sound : c.Sound) :
    c'.Sound ∧ c'.stop = c.stop := by
  induction leads with
  | here => exact ⟨sound, rfl⟩
  | marker scan more ih | padding scan more ih =>
    have spelled := topItemTakes sound scan
    obtain ⟨there, stop⟩ := ih (spelled.sound sound)
    exact ⟨there, stop.trans spelled.stop⟩
  | table scan table loads more ih | value scan plain more ih =>
    have spelled := topItemTakes sound scan
    obtain ⟨there, stop⟩ := ih spelled.behind.2
    exact ⟨there, stop.trans spelled.afterStop⟩

theorem followed (leads : Leads catalog symbols c values last c') (sound : c.Sound) (tail : Bytes) :
    Leads catalog symbols (c.followed tail) values last (c'.followed tail) := by
  induction leads with
  | here => exact .here
  | marker scan more ih =>
    exact .marker (topItemFollowed sound scan tail) (ih ((topItemTakes sound scan).sound sound))
  | padding scan more ih =>
    exact .padding (topItemFollowed sound scan tail) (ih ((topItemTakes sound scan).sound sound))
  | @table symbols c c' h loaded values last c'' scan table loads more ih =>
    obtain ⟨body, after⟩ := headerFollowed sound scan tail
    have later := ih (topItemTakes sound scan).behind.2
    rw [← after] at later
    exact .table (topItemFollowed sound scan tail) table (SymbolTable.loadSame body loads) later
  | @value symbols c c' h values last c'' scan plain more ih =>
    obtain ⟨body, after⟩ := headerFollowed sound scan tail
    have later := ih (topItemTakes sound scan).behind.2
    rw [← after] at later
    have shown : h.shown symbols = (h.followed tail).shown symbols := by
      rw [Header.shown, Header.shown, Header.payload, Header.payload, body]
      rfl
    rw [shown]
    exact .value (topItemFollowed sound scan tail) plain later

end Leads

theorem Reader.sequenceLeads (catalog : Catalog) (symbols : SymbolTable) (c : Cursor) :
    ∃ last c', Leads catalog symbols c (between catalog symbols c).sequence.values last c' ∧
      ((between catalog symbols c).sequence.failure = none → c'.atEnd = true) := by
  -- on the bytes ahead, of which a value takes some
  induction length : c.rest.length using Nat.strongRecOn generalizing symbols c with
  | ind n ih =>
    have reached := nextTopReached catalog symbols c
    rw [sequenceBetween]
    cases walk : nextTop catalog symbols c with
    | mk last step =>
      rw [walk] at reached
      cases step with
      | exhausted c' => exact ⟨last, c', reached.2, fun _ => reached.1⟩
      | halted halt => exact ⟨symbols, c, .here, nofun⟩
      | value h =>
        have shorter := nextTopShorter walk
        have after := h.afterShorter
        obtain ⟨last', c', leads, ended⟩ := ih _ (by omega) last h.after rfl
        exact ⟨last', c', Leads.trans reached leads, ended⟩

theorem Reader.opensBetween (catalog : Catalog) {data : Bytes} (marked : versionMarker <+: data) :
    Reader.of catalog data = .ok (between catalog .system (.ofBytes data)) :=
  if_pos (List.isPrefixOf_iff_prefix.mpr marked)

/-- A reader of a front part of a datagram shows a front part of the values, each as the reader of the
whole shows it: its type, whether it is null, its annotations, its bytes and the symbols in force. It
comes to an end without a failure only where the scan of the whole stands between two items, behind
just these values. -/
theorem truncationForgesNothing (catalog : Catalog) {data front : Bytes}
    (marked : versionMarker <+: data) (cut : front <+: data)
    (room : versionMarker.length ≤ front.length) :
    ∃ r s, Reader.of catalog front = .ok r ∧ Reader.of catalog data = .ok s ∧
      r.sequence.values <+: s.sequence.values ∧
      (r.sequence.failure = none → ∃ symbols c,
        Leads catalog .system (.ofBytes data) r.sequence.values symbols c ∧ c.pos = front.length) := by
  have opened := Reader.opensBetween catalog (List.prefix_of_prefix_length_le marked cut room)
  refine ⟨_, _, opened, Reader.opensBetween catalog marked, ?_⟩
  obtain ⟨tail, rfl⟩ := cut
  obtain ⟨last, c, leads, ended⟩ := Reader.sequenceLeads catalog .system (.ofBytes front)
  have sound := Cursor.ofBytesSound front
  have whole : (Cursor.ofBytes front).followed tail = .ofBytes (front ++ tail) := by
    simp [Cursor.followed, Cursor.ofBytes]
  have longer := leads.followed sound tail
  rw [whole] at longer
  refine ⟨?_, fun well => ⟨last, c.followed tail, longer, ?_⟩⟩
  · rw [longer.sequence]
    exact List.prefix_append _ _
  · -- the scan of the part has come to its last byte
    obtain ⟨there, stop⟩ := leads.sound sound
    have nothing := there.atEnd.mp (ended well)
    rw [Cursor.Sound, nothing] at there
    exact there.trans stop

theorem truncatedBehindSymbol :
    let data : Bytes := [0xE0, 0x01, 0x00, 0xEA, 0xE7, 0x81, 0x83, 0xD4, 0x87, 0xB2, 0x81, 0x61, 0x71,
      0x0A, 0x01, 0xFF, 0xE4, 0x81, 0x8A, 0x21, 0x07]
    let front := data.take 14
    let shown : List Shown := [⟨.symbol, false, [], [0x0A], ⟨.system, [some "a"]⟩⟩]
    versionMarker <+: data ∧ front <+: data ∧ versionMarker.length ≤ front.length ∧
      ∃ r s, Reader.of .empty front = .ok r ∧ Reader.of .empty data = .ok s ∧
        r.sequence = ⟨shown, none⟩ ∧ shown <+: s.sequence.values ∧
          ∃ symbols c, Leads .empty .system (.ofBytes data) shown symbols c ∧ c.pos = 14 := by
  intro data front shown
  have marked : versionMarker <+: data := by decide
  have cut : front <+: data := List.take_prefix 14 data
  have room : versionMarker.length ≤ front.length := by decide
  obtain ⟨r, s, opened, opened', values, ended⟩ := truncationForgesNothing .empty marked cut room
  have sequence : r.sequence = ⟨shown, none⟩ := by
    have is : r = .between .empty .system (.ofBytes front) := (Except.ok.inj opened).symm
    let h : Header := ⟨0x71, .symbol, none, [], ⟨13, 14, [0x0A]⟩, 1⟩
    have found : nextTop .empty .system (.ofBytes front) = (⟨.system, [some "a"]⟩, .value h) := by
      decide +kernel
    have ended : nextTop .empty ⟨.system, [some "a"]⟩ h.after =
        (⟨.system, [some "a"]⟩, .exhausted ⟨14, 14, []⟩) := by decide +kernel
    rw [is, Reader.sequenceBetween, found]
    dsimp only
    rw [Reader.sequenceBetween, ended]
    decide +kernel
  rw [sequence] at values ended
  exact ⟨marked, cut, room, r, s, opened, opened', sequence, values, ended rfl⟩

end Ion
