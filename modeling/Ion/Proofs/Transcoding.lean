import Ion.Proofs.Decoded
import Ion.Proofs.Streaming

/-! Reading a datagram and writing what was read, by symbol IDs: it always goes through, the bytes
say the same values in the shortest forms, and doing it again changes nothing. -/
namespace Ion

theorem Item.valuesEncoded (trees : List Tree) :
    Item.encodeAll? (trees.map .value) = Tree.encodeAll? trees := by
  rw [Tree.encodeAllEach]
  induction trees with
  | nil => rfl
  | cons t rest ih =>
    rw [encodeAll?] at ih
    rw [List.map_cons, encodeAll?, Bytes.each, Bytes.each, ih]
    rfl

theorem Tree.Written.holds {trees : List Tree} {calls : List SidRequest}
    (written : Written false trees calls) (formed : WellFormedAll false trees) (blockSize : Nat) :
    (∀ reply ∈ Calls.replies SidWriter.perform (.empty blockSize) calls, reply = .done) ∧
      Represents (Calls.after SidWriter.perform (.empty blockSize) calls)
        ⟨trees.map .value, [], none, [], false⟩ := by
  have writes : Calls.Runs Draft.perform .empty calls ⟨trees.map .value, [], none, [], false⟩ := by
    have all := Draft.runsWritten written (d := .empty) ⟨rfl, rfl, rfl⟩ rfl
      (Tree.acceptedAll trees formed)
    rwa [Draft.empty, Draft.addOutside] at all
  have new := Represents.empty blockSize
  rw [new.replies written.noReset, ← writes.1]
  exact ⟨writes.2, new.afterRequests written.noReset⟩

def Tree.Sends (trees : List Tree) (bytes : Bytes) : Prop :=
  ∀ blockSize calls, Tree.Written false trees calls →
    let w := Calls.after SidWriter.perform (.empty blockSize) calls
    (∀ reply ∈ Calls.replies SidWriter.perform (.empty blockSize) calls, reply = .done) ∧
      (w.perform (.flush (.empty none false))).1 = .flushed bytes.length ⟨none, false, bytes⟩

theorem Tree.sends {trees : List Tree} (formed : WellFormedAll false trees) {bytes : Bytes}
    (encoded : encodeAll? trees = .ok bytes) : Sends trees bytes := by
  intro blockSize calls written w
  obtain ⟨done, same⟩ := written.holds formed blockSize
  rw [← Item.valuesEncoded] at encoded
  have step : SidRequest.flush (.empty none false) ≠ .reset := nofun
  refine ⟨done, ?_⟩
  rw [(same.performs step).1, Draft.flushes rfl rfl encoded rfl]
  rfl

theorem Tree.encodes {trees : List Tree} (formed : WellFormedAll false trees) :
    ∃ bytes, encodeAll? trees = .ok bytes := by
  obtain ⟨calls, written⟩ := Tree.writable trees formed
  obtain ⟨bytes, encoded⟩ := (written.holds formed 0).2.encodable rfl
  exact ⟨bytes, (Item.valuesEncoded trees).symm.trans encoded⟩

theorem Tree.readBack (catalog : Catalog) {trees : List Tree} (formed : WellFormedAll false trees)
    (plain : ∀ t ∈ trees, t.isTable = false) {bytes : Bytes}
    (encoded : encodeAll? trees = .ok bytes) (fits : (versionMarker ++ bytes).length < 2 ^ 64) :
    ∃ r r', Reader.of catalog (versionMarker ++ bytes) = .ok r ∧
      r.Reads (trees.map fun t => (SymbolTable.system, t)) r' := by
  have surfaces := Surfaces.forest catalog .system formed plain
  have marked : Surfaces catalog .system (.versionMarker :: trees.map .value)
      (trees.map fun t => (SymbolTable.system, t)) .system := .marker surfaces
  rw [← Item.valuesEncoded] at encoded
  exact marked.datagram (Bytes.eachFirst rfl encoded) fits

/-- The values of any datagram can be written again, which gives their shortest form. It reads back
as the same values, and so it is its own shortest form. -/
theorem transcodingCanonical (catalog : Catalog) (data : Bytes) {r r' : Reader}
    {items : List (SymbolTable × Tree)} (opened : Reader.of catalog data = .ok r)
    (reads : r.Reads items r') (few : Tree.FewAll (Reader.shown items)) :
    let trees := Reader.shown items
    (∃ calls, Tree.Written false trees calls) ∧
      ∃ bytes, Tree.encodeAll? trees = .ok bytes ∧ Tree.Sends trees bytes ∧
        -- no byte string is longer than a machine word can say
        ((versionMarker ++ bytes).length < 2 ^ 64 → ∀ catalog',
          ∃ s, Reader.of catalog' (versionMarker ++ bytes) = .ok s ∧
            (∃ s', s.Reads (trees.map fun t => (SymbolTable.system, t)) s') ∧
              ∀ items' s', s.Reads items' s' → Reader.shown items' = trees ∧
                (∃ calls, Tree.Written false (Reader.shown items') calls) ∧
                  Tree.Sends (Reader.shown items') bytes) := by
  intro trees
  obtain ⟨ahead, top⟩ := Reader.opens opened
  obtain ⟨-, formed, plain⟩ := reads.formed ahead few
  rw [top] at formed plain
  have writable := Tree.writable trees formed
  obtain ⟨bytes, encoded⟩ := Tree.encodes formed
  have sends := Tree.sends formed encoded
  refine ⟨writable, bytes, encoded, sends, fun fits catalog' => ?_⟩
  obtain ⟨s, s', opened', again⟩ := Tree.readBack catalog' formed (plain rfl) encoded fits
  refine ⟨s, opened', ⟨s', again⟩, fun items' s'' other => ?_⟩
  have same : Reader.shown items' = trees := by
    rw [(other.unique again).1, Reader.shownTogether]
  rw [same]
  exact ⟨rfl, writable, sends⟩

theorem transcodesPaddedInt :
    let data : Bytes := [0xE0, 0x01, 0x00, 0xEA, 0x00, 0xEE, 0x00, 0x86, 0x00, 0x81, 0x8A, 0x22, 0x00,
      0x05]
    let trees : List Tree := [.atom none [10] (.int 5)]
    let bytes : Bytes := [0xE4, 0x81, 0x8A, 0x21, 0x05]
    ∃ r r' s s', Reader.of .empty data = .ok r ∧
      r.Reads (trees.map fun t => (SymbolTable.system, t)) r' ∧ Tree.Sends trees bytes ∧
        Reader.of .empty (versionMarker ++ bytes) = .ok s ∧
          s.Reads (trees.map fun t => (SymbolTable.system, t)) s' := by
  intro data trees bytes
  obtain ⟨r, opened⟩ : ∃ r, Reader.of .empty data = .ok r := ⟨_, rfl⟩
  have is : r = ⟨.empty, .system, [], .before (.ofBytes data)⟩ := (Except.ok.inj opened).symm
  let on (decoded : Variant) : Reader :=
    ⟨.empty, .system, [], .on ⟨0x22, .int, none, [10], ⟨12, 14, [0x00, 0x05]⟩, 2⟩ decoded⟩
  have found : r.next = .ok (some .int) (on none) := by
    rw [is]
    decide +kernel
  have read : Reader.plain .int (on none) = .ok (.int 5) (on (some (.int 5))) := by decide +kernel
  have ended : (on (some (.int 5))).next =
      .ok none ⟨.empty, .system, [], .exhausted ⟨14, 14, []⟩⟩ := by decide +kernel
  have reads : r.Reads (trees.map fun t => (SymbolTable.system, t)) _ :=
    .plain found rfl ⟨rfl, rfl⟩ read (.done ended)
  have few : Tree.FewAll (Reader.shown (trees.map fun t => (SymbolTable.system, t))) := by
    rw [Reader.shownTogether]
    exact ⟨Nat.le_add_left 1 99, trivial⟩
  obtain ⟨-, sent, encoded, sends, again⟩ := transcodingCanonical .empty data opened reads few
  rw [Reader.shownTogether] at encoded sends again
  have shortest : (Tree.encodeAll? trees).toOption = some bytes := by decide +kernel
  rw [encoded] at shortest
  cases shortest
  obtain ⟨s, opened', ⟨s', reads'⟩, -⟩ := again (by decide) .empty
  exact ⟨r, _, s, s', opened, reads, sends, opened', reads'⟩

end Ion
