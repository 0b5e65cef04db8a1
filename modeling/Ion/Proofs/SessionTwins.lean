import Ion.Proofs.SessionCongruence
import Ion.Proofs.Twins

/-! Two session writers at one point. What announces symbols is between two values whenever the
session asks it for something. -/
namespace Ion

namespace SidWriter

structure Between (size : Nat) (w v : SidWriter) : Prop where
  twin : Twin size w v
  values : ∃ items, Represents w ⟨items, [], none, [], false⟩

variable {size : Nat} {w v : SidWriter}

theorem Between.call (between : Between size w v) {act : SidWriter.Call Unit} {w' : SidWriter}
    {items : List Item} (both : Both (Twin size) act act) (ok : act w = .ok () w')
    (next : Represents w' ⟨items, [], none, [], false⟩) : Alike (Between size) (act w) (act v) := by
  rcases (both w v between.twin).ends with ⟨u, _, v', left, right, twin⟩ | ⟨e, _, _, left, -⟩
  · rw [ok] at left
    cases left
    rw [ok, right]
    exact ⟨rfl, twin, items, next⟩
  · rw [ok] at left
    contradiction

theorem Between.marks : Both (Between size) SidWriter.writeVersionMarker SidWriter.writeVersionMarker := by
  intro w v between
  obtain ⟨items, same⟩ := between.values
  obtain ⟨w', ok, next⟩ := same.marks
  exact between.call (Twin.call .writeVersionMarker) ok next

theorem Between.declares (append : Bool) (imports : List Layer) (added : List (Option String)) :
    Both (Between size) (SessionWriter.writeTable append imports added)
      (SessionWriter.writeTable append imports added) := by
  intro w v between
  obtain ⟨items, same⟩ := between.values
  obtain ⟨w', ok, next⟩ := same.declares append imports added
  refine between.call ?_ ok next
  rw [TableTree.tableScript]
  exact .each Twin.call

theorem betweenFlush {items : List Item} (same : Represents w ⟨items, [], none, [], false⟩) (sink : Sink) :
    ∀ s, (∃ count, SidWriter.flush (w, sink) = .ok count s) ∨
        (∃ e, SidWriter.flush (w, sink) = .error e s) →
      ∃ items, Represents s.1 ⟨items, [], none, [], false⟩ := by
  intro s ends
  obtain ⟨bytes, encoded⟩ := same.encodable rfl
  have checked : Draft.checkFlushable ⟨items, [], none, [], false⟩ =
      .ok () ⟨items, [], none, [], false⟩ := rfl
  have alike := same.flush sink
  simp only [Draft.flush, checked, encoded] at alike
  cases taken : Sink.write bytes sink with
  | ok u k =>
    rw [taken] at alike
    rcases ends with ⟨count, ok⟩ | ⟨e, ok⟩
    · rw [ok] at alike
      exact ⟨[], alike.2.1⟩
    · rw [ok] at alike
      exact alike.elim
  | error e k =>
    rw [taken] at alike
    rcases ends with ⟨count, ok⟩ | ⟨e, ok⟩
    · rw [ok] at alike
      exact alike.elim
    · rw [ok] at alike
      exact ⟨items, alike.2.1⟩

theorem Between.flush : Both (SameSink (Between size)) SidWriter.flush SidWriter.flush := by
  rintro ⟨w, sink⟩ ⟨v, sink'⟩ ⟨between, rfl⟩
  obtain ⟨items, same⟩ := between.values
  rcases (between.twin.flush sink).ends with
    ⟨count, s, t, left, right, twin, sinks⟩ | ⟨e, s, t, left, right, twin, sinks⟩
  · rw [left, right]
    exact ⟨rfl, ⟨twin, betweenFlush same sink s (.inl ⟨count, left⟩)⟩, sinks⟩
  · rw [left, right]
    exact ⟨rfl, ⟨twin, betweenFlush same sink s (.inr ⟨e, left⟩)⟩, sinks⟩

theorem betweenReset {items : List Item} (same : Represents w ⟨items, [], none, [], false⟩) :
    (∀ list ∈ w.abandoned, list = []) ∧ Represents w.reset .empty := by
  have clean := same.leavesNothing rfl
  have fresh := restartRepresents same.sound.out.pool clean
  have healthy : w.restart.poisoned = false := same.poisoned
  rw [same.poisoned] at fresh
  rw [SidWriter.reset, ← healthy]
  exact ⟨clean, fresh⟩

theorem Between.reset (between : Between size w v) : Between size w.reset v.reset := by
  obtain ⟨items, same⟩ := between.values
  exact ⟨between.twin.reset, [], (betweenReset same).2⟩

end SidWriter

namespace SessionWriter

structure Twin (tables : List SharedTable) (size : Nat) (w v : SessionWriter) : Prop where
  user : SidWriter.Twin size w.user v.user
  system : SidWriter.Between size w.system v.system
  imports : w.symbols.imports = .ofTables tables
  symbols : w.symbols = v.symbols
  declared : w.declared = v.declared
  tableWritten : w.tableWritten = v.tableWritten
  sessionOpen : w.sessionOpen = v.sessionOpen

variable {tables : List SharedTable} {size : Nat} {w v : SessionWriter}

theorem Twin.withUser (twin : Twin tables size w v) {u t : SidWriter}
    (user : SidWriter.Twin size u t) :
    Twin tables size { w with user := u } { v with user := t } :=
  ⟨user, twin.system, twin.imports, twin.symbols, twin.declared, twin.tableWritten, twin.sessionOpen⟩

theorem Twin.withSystem (twin : Twin tables size w v) {u t : SidWriter}
    (system : SidWriter.Between size u t) :
    Twin tables size { w with system := u } { v with system := t } :=
  ⟨twin.user, system, twin.imports, twin.symbols, twin.declared, twin.tableWritten, twin.sessionOpen⟩

theorem Twin.ended (twin : Twin tables size w v) : Twin tables size w.endSession v.endSession := by
  refine ⟨twin.user, twin.system, twin.imports, ?_, rfl, rfl, rfl⟩
  simp only [endSession, twin.symbols]

theorem Twin.congruence :
    Congruence (SidWriter.Twin size) (SidWriter.Between size) (Twin tables size) where
  users := SidWriter.Twin.congruence
  marks := SidWriter.Between.marks
  declares := SidWriter.Between.declares
  sends := SidWriter.Between.flush
  user := Twin.user
  system := Twin.system
  symbols := Twin.symbols
  declared := Twin.declared
  tableWritten := Twin.tableWritten
  sessionOpen := Twin.sessionOpen
  withUser := Twin.withUser
  withSystem := Twin.withSystem
  grown twin _ grown := ⟨twin.user, twin.system, grown.imports.trans twin.imports, rfl, twin.declared,
    twin.tableWritten, twin.sessionOpen⟩
  announced twin _ _ _ := ⟨twin.user, twin.system, twin.imports, twin.symbols, rfl, rfl, rfl⟩
  ended := Twin.ended

theorem Twin.reset (twin : Twin tables size w v) : Twin tables size w.reset v.reset := by
  have parts := (twin.withUser twin.user.reset).withSystem twin.system.reset
  exact parts.ended

theorem Twin.performs {w v : SessionWriter} (request : SessionRequest) (twin : Twin tables size w v) :
    (w.perform request).1 = (v.perform request).1 ∧
      Twin tables size (w.perform request).2 (v.perform request).2 := by
  by_cases resets : request = .reset
  · subst resets
    exact ⟨rfl, twin.reset⟩
  · exact Twin.congruence.performs twin resets

theorem Twin.empty (blockSize : Nat) (tables : List SharedTable) :
    Twin tables (max blockSize 16) (.empty blockSize tables) (.empty blockSize tables) :=
  ⟨.empty blockSize, ⟨.empty blockSize, [], .empty blockSize⟩, rfl, rfl, rfl, rfl, rfl⟩

theorem Twin.fresh {blockSize : Nat} (twin : Twin tables (max blockSize 16) w w)
    (clean : ∀ list ∈ w.user.abandoned, list = []) :
    Twin tables (max blockSize 16) w.reset (.empty blockSize tables) := by
  obtain ⟨items, same⟩ := twin.system.values
  obtain ⟨nothing, represents⟩ := SidWriter.betweenReset same
  have imports : w.reset.symbols.imports = .ofTables tables := twin.imports
  refine ⟨twin.user.fresh clean, ⟨twin.system.twin.fresh nothing, [], represents⟩, imports, ?_, rfl, rfl,
    rfl⟩
  exact congrArg SymbolTable.ofImports imports

end SessionWriter

end Ion
