import Ion.Proofs.Reading
import Ion.Proofs.Streaming

/-! What is written through the writer below symbol tables is read back as it was given: values of
every type, nested to any depth, with their names and annotations. -/
namespace Ion

theorem forestRoundTrip (blockSize : Nat) (catalog : Catalog) (forest : List Tree)
    (formed : Tree.WellFormedAll false forest) (plain : ∀ t ∈ forest, t.isTable = false) :
    (∃ calls, Tree.Written false forest calls) ∧
      ∀ calls, Tree.Written false forest calls →
        let w := Calls.after SidWriter.perform (.empty blockSize) calls
        let shown := forest.map fun t => (SymbolTable.system, t)
        (∀ reply ∈ Calls.replies SidWriter.perform (.empty blockSize) calls, reply = .done) ∧
          ∃ bytes, (w.perform (.flush (.empty none false))).1 =
              .flushed bytes.length ⟨none, false, bytes⟩ ∧
            -- no byte string is longer than a machine word can say
            ((versionMarker ++ bytes).length < 2 ^ 64 →
              ∃ r, Reader.of catalog (versionMarker ++ bytes) = .ok r ∧ (∃ r', r.Reads shown r') ∧
                ∀ items r', r.Reads items r' → items = shown) := by
  refine ⟨Tree.writable forest formed, ?_⟩
  intro calls written w shown
  have writes : Calls.Runs Draft.perform .empty calls
      ⟨forest.map .value, [], none, [], false⟩ := by
    have all := Draft.runsWritten written (d := .empty) ⟨rfl, rfl, rfl⟩ rfl
      (Tree.acceptedAll forest formed)
    rwa [Draft.empty, Draft.addOutside] at all
  have same : Represents w ⟨forest.map .value, [], none, [], false⟩ := by
    rw [← writes.1]
    exact (Represents.empty blockSize).afterRequests written.noReset
  obtain ⟨bytes, encoded⟩ := same.encodable rfl
  refine ⟨?_, bytes, ?_, fun fits => ?_⟩
  · rw [(Represents.empty blockSize).replies written.noReset]
    exact writes.2
  · have step : SidRequest.flush (.empty none false) ≠ .reset := nofun
    rw [(same.performs step).1, Draft.flushes rfl rfl encoded rfl]
    rfl
  · have surfaces := Surfaces.forest catalog .system formed plain
    have marked : Surfaces catalog .system (.versionMarker :: forest.map .value) shown .system :=
      .marker surfaces
    have whole : Item.encodeAll? (.versionMarker :: forest.map .value) = .ok (versionMarker ++ bytes) :=
      Bytes.eachFirst rfl encoded
    obtain ⟨r, r', opened, reads⟩ := marked.datagram whole fits
    exact ⟨r, opened, ⟨r', reads⟩, fun items r'' other => (other.unique reads).1⟩

theorem annotatedStructRoundTrip :
    let forest : List Tree :=
      [.container none [9] .struct [.atom (some 4) [] (.bool true)], .atom none [] (.null .list)]
    let calls : List SidRequest :=
      [.setAnnotations [9], .stepIn .struct, .setField 4, .write (.bool true), .stepOut,
        .write (.null .list)]
    let w := Calls.after SidWriter.perform (.empty 1) calls
    Tree.WellFormedAll false forest ∧ (∀ t ∈ forest, t.isTable = false) ∧
      Tree.Written false forest calls ∧
        ∃ bytes r r', (w.perform (.flush (.empty none false))).1 =
            .flushed bytes.length ⟨none, false, bytes⟩ ∧
          Reader.of .empty (versionMarker ++ bytes) = .ok r ∧
            r.Reads (forest.map fun t => (SymbolTable.system, t)) r' := by
  intro forest calls w
  have formed : Tree.WellFormedAll false forest :=
    ⟨⟨⟨rfl, by decide, by decide, by decide⟩, ⟨⟨rfl, by decide, by decide, by decide⟩, trivial⟩, trivial⟩,
      ⟨⟨rfl, by decide, by decide, by decide⟩, trivial⟩, trivial⟩
  have plain : ∀ t ∈ forest, t.isTable = false := by
    intro t mem
    simp only [forest, List.mem_cons, List.not_mem_nil, or_false] at mem
    rcases mem with rfl | rfl <;> rfl
  have annotated : SidRequest.announced false [.setAnnotations [9]] = some ⟨none, [9]⟩ := rfl
  have named : SidRequest.announced (Container.struct == .struct) [.setField 4] =
      some ⟨some 4, []⟩ := rfl
  have bare : SidRequest.announced false [] = some ⟨none, []⟩ := rfl
  have written : Tree.Written false forest calls :=
    .container annotated (.atom named .nothing) (.atom bare .nothing)
  obtain ⟨_, bytes, flushed, reads⟩ :=
    (forestRoundTrip 1 .empty forest formed plain).2 calls written
  have sent : (w.perform (.flush (.empty none false))).1 =
      .flushed 7 ⟨none, false, [0xE5, 0x81, 0x89, 0xD2, 0x84, 0x11, 0xBF]⟩ := by decide +kernel
  have size : bytes.length = 7 := (Reply.flushed.inj (flushed.symm.trans sent)).1
  obtain ⟨r, opened, ⟨r', whole⟩, _⟩ := reads (by rw [List.length_append, size]; decide)
  exact ⟨formed, plain, written, bytes, r, r', flushed, opened, whole⟩

end Ion
