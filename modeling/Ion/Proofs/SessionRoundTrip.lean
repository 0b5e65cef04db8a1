import Ion.Proofs.Sessions

/-! Sessions: values written by name, flushed to one sink at any points between them. A reader over
the sink meets every value under the symbols that the writer had when it flushed it. -/
namespace Ion

theorem Given.Read.append {t : SymbolTable} {left right : List Given} {trees trees' : List Tree}
    (one : Read t left trees) (two : Read t right trees') : Read t (left ++ right) (trees ++ trees') := by
  induction one with
  | nothing => exact two
  | atom labels more ih => exact .atom labels ih
  | symbol labels same more ih => exact .symbol labels same ih
  | container labels inner more _ ih => exact .container labels inner ih

theorem Given.formedAppend {member : Bool} {left right : List Given} (one : WellFormedAll member left)
    (two : WellFormedAll member right) : WellFormedAll member (left ++ right) := by
  induction left with
  | nil => exact two
  | cons g rest ih => exact ⟨one.1, ih one.2⟩

structure SessionWriter.Holds (w : SessionWriter) (values : List Given) (trees : List Tree) : Prop where
  user : Represents w.user ⟨trees.map .value, [], none, [], false⟩
  read : ∀ {u}, w.symbols.Extends u → Given.Read u values trees

theorem SessionWriter.Holds.writes {w : SessionWriter} {waiting values : List Given} {trees : List Tree}
    (holds : w.Holds waiting trees) (formed : Given.WellFormedAll false values)
    {calls : List SessionRequest} (written : Given.Written false values calls) :
    ∃ user t more, Calls.Runs perform w calls { w with user, symbols := t } ∧ w.symbols.Extends t ∧
      Holds { w with user, symbols := t } (waiting ++ values) (trees ++ more) ∧
      ∃ below, SessionRequest.Resolves w.symbols calls below t ∧
        Calls.Runs SidWriter.perform w.user below user := by
  obtain ⟨below, t, more, resolved, writes, grown, read⟩ := written.resolves w.symbols
  have accepted := (read (.refl t)).accepted formed
  have plain := Draft.runsWritten writes (d := ⟨trees.map .value, [], none, [], false⟩)
    ⟨rfl, rfl, rfl⟩ rfl accepted
  rw [Draft.addOutside, ← List.map_append] at plain
  obtain ⟨user, runs, same⟩ := holds.user.runs writes.noReset plain
  exact ⟨user, t, more, runsResolved resolved runs, grown,
    ⟨same, fun later => (holds.read (grown.trans later)).append (read later)⟩, below, resolved, runs⟩

/-- The runs of a writer that is given whole values and flushes them to one sink. For every flush so
far there are the values it sent and the symbols of the writer then; `waiting` are the values since. -/
inductive Session (blockSize : Nat) (tables : List SharedTable) :
    SessionWriter → Sink → List (List Given × SymbolTable) → List Given → Prop
  | start {sink} (fresh : sink.received = []) :
      Session blockSize tables (.empty blockSize tables) sink [] []
  | values {w sink sent waiting values calls} (earlier : Session blockSize tables w sink sent waiting)
      (formed : Given.WellFormedAll false values) (plain : ∀ g ∈ values, g.isTable = false)
      (written : Given.Written false values calls) :
      Session blockSize tables (Calls.after SessionWriter.perform w calls) sink sent (waiting ++ values)
  | flush {w w' sink sink' sent waiting count} (earlier : Session blockSize tables w sink sent waiting)
      (ok : w.perform (.flush sink) = (.flushed count sink', w')) :
      Session blockSize tables w' sink' (sent ++ [(waiting, w.symbols)]) []
  | finish {w w' sink sink' sent waiting count} (earlier : Session blockSize tables w sink sent waiting)
      (ok : w.perform (.finish sink) = (.flushed count sink', w')) :
      Session blockSize tables w' sink' (sent ++ [(waiting, w.symbols)]) []

inductive ReadBack : List (List Given × SymbolTable) → List (SymbolTable × Tree) → Prop
  | nothing : ReadBack [] []
  | flush {values t rest trees shown} (read : Given.Read t values trees) (more : ReadBack rest shown) :
      ReadBack ((values, t) :: rest) (trees.map (fun tree => (t, tree)) ++ shown)

theorem ReadBack.add {sent : List (List Given × SymbolTable)} {shown : List (SymbolTable × Tree)}
    (readBack : ReadBack sent shown) {values : List Given} {t : SymbolTable} {trees : List Tree}
    (read : Given.Read t values trees) :
    ReadBack (sent ++ [(values, t)]) (shown ++ trees.map fun tree => (t, tree)) := by
  induction readBack with
  | nothing => simpa using ReadBack.flush read .nothing
  | flush first more ih =>
    rw [List.append_assoc]
    exact .flush first ih

namespace Session

structure Sent (catalog : Catalog) (w : SessionWriter) (received : Bytes)
    (sent : List (List Given × SymbolTable)) (items : List Item) (shown : List (SymbolTable × Tree))
    (last : SymbolTable) : Prop where
  encoded : Item.encodeAll? items = .ok received
  surfaces : Surfaces catalog .system items shown last
  readBack : ReadBack sent shown
  begins : sent = [] ∧ items = [] ∧ w.sessionOpen = false ∨
    sent ≠ [] ∧ ∃ rest, items = .versionMarker :: rest
  reader : w.sessionOpen = true → last = w.known

structure Invariant (catalog : Catalog) (tables : List SharedTable) (w : SessionWriter)
    (received : Bytes) (sent : List (List Given × SymbolTable)) (waiting : List Given) : Prop where
  steady : w.Steady tables
  holds : ∃ trees, w.Holds waiting trees
  formed : Given.WellFormedAll false waiting
  plain : ∀ g ∈ waiting, g.isTable = false
  sent : (∀ flush ∈ sent, flush.2.maxId ≤ Sid.last) →
    ∃ items shown last, Sent catalog w received sent items shown last

variable {catalog : Catalog} {tables : List SharedTable} {w w' : SessionWriter} {sink sink' : Sink}
  {sent : List (List Given × SymbolTable)} {waiting : List Given}

theorem Invariant.values (invariant : Invariant catalog tables w sink.received sent waiting)
    {values : List Given} {calls : List SessionRequest} (formed : Given.WellFormedAll false values)
    (plain : ∀ g ∈ values, g.isTable = false) (written : Given.Written false values calls) :
    Invariant catalog tables (Calls.after SessionWriter.perform w calls) sink.received sent
      (waiting ++ values) := by
  obtain ⟨trees, holds⟩ := invariant.holds
  obtain ⟨user, t, more, runs, grown, after, -⟩ := holds.writes formed written
  rw [runs.1]
  refine ⟨invariant.steady.grown grown user, ⟨_, after⟩, ?_, ?_, fun rooms => ?_⟩
  · exact Given.formedAppend invariant.formed formed
  · intro g mem
    exact (List.mem_append.mp mem).elim (invariant.plain g) (plain g)
  · obtain ⟨items, shown, last, sent⟩ := invariant.sent rooms
    refine ⟨items, shown, last, sent.encoded, sent.surfaces, sent.readBack, sent.begins, fun started => ?_⟩
    rw [sent.reader started, invariant.steady.knownGrown grown user]

theorem announcementBegins (w : SessionWriter) (started : w.sessionOpen = false) (behind : List Item) :
    ∃ rest, w.announcement ++ behind = .versionMarker :: rest := by
  rw [SessionWriter.announcement, started]
  exact ⟨_, rfl⟩

theorem Invariant.flush (importable : ∀ t ∈ tables, t.Importable catalog)
    (chain : (Imports.ofTables tables).maxId < Sid.last)
    (invariant : Invariant catalog tables w sink.received sent waiting) {count : Nat}
    (ok : SessionWriter.flush (w, sink) = .ok count (w', sink')) :
    Invariant catalog tables w' sink'.received (sent ++ [(waiting, w.symbols)]) [] := by
  obtain ⟨trees, holds⟩ := invariant.holds
  obtain ⟨system, user, head, body, rfl, empty, nothing, announced, values, received⟩ :=
    invariant.steady.flushed holds.user ok
  refine ⟨invariant.steady.sent empty user, ⟨[], nothing, fun _ => .nothing⟩, trivial, by simp,
    fun rooms => ?_⟩
  have room : w.symbols.maxId ≤ Sid.last := rooms (waiting, w.symbols) (by simp)
  obtain ⟨items, shown, last, before⟩ :=
    invariant.sent fun flush mem => rooms flush (List.mem_append_left _ mem)
  have read := holds.read (.refl w.symbols)
  have formed := read.formed room invariant.formed
  have announces := invariant.steady.announces importable chain room before.reader
  have forest := Surfaces.forest catalog w.symbols formed (read.plain invariant.plain)
  refine ⟨items ++ (w.announcement ++ trees.map .value), _, w.symbols, ?_,
    before.surfaces.append (announces.append forest), before.readBack.add read, .inr ⟨by simp, ?_⟩,
    fun _ => (invariant.steady.knownSent system user).symm⟩
  · rw [received]
    exact Bytes.eachAppend before.encoded (Bytes.eachAppend announced values)
  · rcases before.begins with ⟨_, rfl, started⟩ | ⟨_, rest, rfl⟩
    · exact announcementBegins w started _
    · exact ⟨_, rfl⟩

theorem Invariant.ended (invariant : Invariant catalog tables w sink.received sent []) :
    Invariant catalog tables w.endSession sink.received sent [] := by
  obtain ⟨trees, holds⟩ := invariant.holds
  have nothing : trees = [] := by
    cases holds.read (.refl w.symbols)
    rfl
  subst nothing
  refine ⟨invariant.steady.ended, ⟨[], holds.user, fun _ => .nothing⟩, trivial, by simp, fun rooms => ?_⟩
  obtain ⟨items, shown, last, sent⟩ := invariant.sent rooms
  refine ⟨items, shown, last, sent.encoded, sent.surfaces, sent.readBack, ?_, nofun⟩
  exact sent.begins.imp (fun ⟨unsent, empty, _⟩ => ⟨unsent, empty, rfl⟩) id

theorem finishFlushes {count : Nat} (ok : SessionWriter.finish (w, sink) = .ok count (w', sink')) :
    ∃ flushed, SessionWriter.flush (w, sink) = .ok count (flushed, sink') ∧ w' = flushed.endSession := by
  obtain ⟨written, ⟨flushed, sink''⟩, flush, rest⟩ := bindOk ok
  cases rest
  exact ⟨flushed, flush, rfl⟩

theorem invariant {blockSize : Nat} (importable : ∀ t ∈ tables, t.Importable catalog)
    (chain : (Imports.ofTables tables).maxId < Sid.last)
    (run : Session blockSize tables w sink sent waiting) :
    Invariant catalog tables w sink.received sent waiting := by
  induction run with
  | start fresh =>
    refine ⟨.empty blockSize tables, ⟨[], .empty blockSize, fun _ => .nothing⟩, trivial, by simp,
      fun _ => ?_⟩
    refine ⟨[], [], .system, by rw [fresh]; rfl, .done, .nothing, .inl ⟨rfl, rfl, rfl⟩, nofun⟩
  | values earlier formed plain written ih => exact ih.values formed plain written
  | flush earlier ok ih => exact ih.flush importable chain (Reply.flushedIff.mp ok)
  | finish earlier ok ih =>
    obtain ⟨flushed, flush, rfl⟩ := finishFlushes (Reply.flushedIff.mp ok)
    exact (ih.flush importable chain flush).ended

theorem roundTrips {blockSize : Nat} (importable : ∀ t ∈ tables, t.Importable catalog)
    (chain : (Imports.ofTables tables).maxId < Sid.last)
    (run : Session blockSize tables w sink sent waiting) :
    (∀ values, Given.WellFormedAll false values →
      (∃ calls, Given.Written false values calls) ∧
        ∀ calls, Given.Written false values calls →
          ∀ reply ∈ Calls.replies SessionWriter.perform w calls, reply = .done) ∧
      (∀ received, ∃ count after, (w.perform (.flush ⟨none, false, received⟩)).1 = .flushed count after) ∧
      (∀ received, ∃ count after, (w.perform (.finish ⟨none, false, received⟩)).1 = .flushed count after) ∧
      (sent = [] → sink.received = []) ∧
      (sent ≠ [] → (∀ flush ∈ sent, flush.2.maxId ≤ Sid.last) → sink.received.length < 2 ^ 64 →
        ∃ r shown, Reader.of catalog sink.received = .ok r ∧ ReadBack sent shown ∧
          (∃ r', r.Reads shown r') ∧ ∀ items r', r.Reads items r' → items = shown) := by
  have invariant := run.invariant importable chain
  obtain ⟨trees, holds⟩ := invariant.holds
  refine ⟨fun values formed => ⟨Given.writable values formed, fun calls written => ?_⟩, ?_, ?_, ?_, ?_⟩
  · obtain ⟨user, t, more, runs, -⟩ := holds.writes formed written
    exact runs.2
  · intro received
    obtain ⟨count, ⟨w', after⟩, flushed⟩ := invariant.steady.flushes holds.user received
    exact ⟨count, after, congrArg Prod.fst (Reply.flushedIff.mpr flushed)⟩
  · intro received
    obtain ⟨count, ⟨w', after⟩, flushed⟩ := invariant.steady.flushes holds.user received
    have finished := SessionWriter.finishRuns flushed
    exact ⟨count, after, congrArg Prod.fst (Reply.flushedIff.mpr finished)⟩
  · rintro rfl
    obtain ⟨items, shown, last, output⟩ := invariant.sent (by simp)
    rcases output.begins with ⟨-, rfl, -⟩ | ⟨flushed, -⟩
    · exact (Except.ok.inj output.encoded).symm
    · exact absurd rfl flushed
  · intro flushed rooms fits
    obtain ⟨items, shown, last, output⟩ := invariant.sent rooms
    rcases output.begins with ⟨nothing, -⟩ | ⟨-, rest, rfl⟩
    · exact absurd nothing flushed
    · obtain ⟨r, r', opened, reads⟩ := output.surfaces.datagram output.encoded fits
      exact ⟨r, shown, opened, output.readBack, ⟨r', reads⟩, fun items r'' other => (other.unique reads).1⟩

end Session

end Ion
