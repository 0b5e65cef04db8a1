import Ion.Proofs.SessionTwins

/-! Flushes of a session into sinks that fail. Before the sink gets a byte, the session is announced
and the new symbols are declared in the writer of system values; so what a sink refuses is still to be
sent, in the order it was written, and is announced once. -/
namespace Ion

namespace Sink

theorem writeWithin {limit : Nat} {failsFlush : Bool} {got data : Bytes}
    (fits : got.length + data.length ≤ limit) :
    write data ⟨some limit, failsFlush, got⟩ = .ok () ⟨some limit, failsFlush, got ++ data⟩ := by
  have room : min data.length (limit - got.length) = data.length := by omega
  simp only [write, Sink.room, room, List.take_length, if_true]

theorem writeOver {limit : Nat} {failsFlush : Bool} {got data : Bytes} (before : got.length ≤ limit)
    (exceeds : limit < got.length + data.length) :
    write data ⟨some limit, failsFlush, got⟩ =
      .error .full ⟨some limit, failsFlush, (got ++ data).take limit⟩ := by
  have room : min data.length (limit - got.length) = limit - got.length := by omega
  have short : limit - got.length ≠ data.length := by omega
  have taken : (got ++ data).take limit = got ++ data.take (limit - got.length) := by
    rw [List.take_append, List.take_of_length_le before]
  simp only [write, Sink.room, room, if_neg short, taken]

end Sink

theorem Represents.written {w : SidWriter} {items : List Item}
    (same : Represents w ⟨items, [], none, [], false⟩) : Item.encodeAll? items = .ok w.out.bytes := by
  obtain ⟨bytes, encoded⟩ := same.encodable rfl
  rw [encoded, ← same.finished rfl encoded, Streak.finishBytes]

theorem Represents.restarts {w : SidWriter} {items : List Item}
    (same : Represents w ⟨items, [], none, [], false⟩) :
    Represents w.restart ⟨[], [], none, [], false⟩ := by
  have fresh := restartRepresents same.sound.out.pool (same.leavesNothing rfl)
  rw [same.poisoned] at fresh
  exact fresh

namespace SidWriter

variable {w : SidWriter}

theorem restartBytes (w : SidWriter) : w.restart.out.bytes = [] := Streak.startBytes _ []

theorem restartReady (ready : checkFlushable w = .ok () w) : checkFlushable w.restart = .ok () w.restart :=
  readyChecks rfl rfl (checkedReady ready).2.2.2

theorem resumedReady (ready : checkFlushable w = .ok () w) :
    checkFlushable w.resumed = .ok () w.resumed := by
  obtain ⟨-, closed, bare, healthy⟩ := checkedReady ready
  exact readyChecks closed bare healthy

end SidWriter

namespace SessionWriter

structure Pending (w : SessionWriter) (system values : Bytes) : Prop where
  announces : ∃ items head, Represents w.system ⟨items, [], none, [], false⟩ ∧
    Item.encodeAll? w.announcement = .ok head ∧ w.system.out.bytes ++ head = system
  ready : SidWriter.checkFlushable w.user = .ok () w.user
  values : w.user.out.bytes = values

variable {w : SessionWriter} {system values : Bytes}

theorem announcedQuiet (w : SessionWriter) (system : SidWriter) :
    announcement { w.announced system with
      declared := if w.needsTable then w.symbols.locals.length else w.declared } = [] := by
  have satisfied : needsTable { w.announced system with
      declared := if w.needsTable then w.symbols.locals.length else w.declared } = false := by
    cases needed : w.needsTable with
    | false =>
      simp only [announced, needed, Bool.or_false]
      exact needed
    | true =>
      have written : (w.announced system).tableWritten = true := by
        simp only [announced, needed, Bool.or_true]
      have declared : (w.announced system).symbols.locals.drop w.symbols.locals.length = [] :=
        List.drop_length
      simp only [needsTable, undeclared, written, if_true, declared]
      rfl
  rw [announcement, satisfied]
  rfl

theorem announcementEncodes (w : SessionWriter) : ∃ head, Item.encodeAll? w.announcement = .ok head := by
  obtain ⟨system, -, announced⟩ := SessionWriter.prepares (w := { w with user := .empty 0, system := .empty 0 })
    (.empty 0) (SidWriter.readyChecks rfl rfl rfl)
  exact ⟨_, announced.written⟩

theorem Pending.prepares (pending : w.Pending system values) :
    ∃ v, prepare w = .ok () v ∧ v.user = w.user ∧ v.symbols = w.symbols ∧ v.announcement = [] ∧
      (∃ items, Represents v.system ⟨items, [], none, [], false⟩) ∧ v.system.out.bytes = system := by
  obtain ⟨items, head, same, encoded, rfl⟩ := pending.announces
  obtain ⟨after, runs, next⟩ := SessionWriter.prepares same pending.ready
  refine ⟨_, runs, rfl, rfl, w.announcedQuiet after, ⟨_, next⟩, ?_⟩
  have both := Bytes.eachAppend same.written encoded
  exact Except.ok.inj (next.written.symm.trans both)

theorem Pending.steps (pending : w.Pending system values) (sink : Sink) :
    ∃ v : SessionWriter, v.symbols = w.symbols ∧ v.announcement = [] ∧
      (∃ items, Represents v.system ⟨items, [], none, [], false⟩) ∧ v.system.out.bytes = system ∧
      v.user = w.user ∧
      flush (w, sink) =
        match Sink.write system sink with
        | .error e sink => .error (.output e) ({ v with system := v.system.resumed }, sink)
        | .ok _ sink =>
          match Sink.write values sink with
          | .error e sink =>
            .error (.output e) ({ v with system := v.system.restart, user := v.user.resumed }, sink)
          | .ok _ sink =>
            let v : SessionWriter := { v with system := v.system.restart, user := v.user.restart }
            match Sink.flush sink with
            | .error e sink => .error (.output e) (v, sink)
            | .ok _ sink => .ok (system.length + values.length) (v, sink) := by
  obtain ⟨v, runs, user, symbols, quiet, ⟨items, same⟩, bytes⟩ := pending.prepares
  refine ⟨v, symbols, quiet, ⟨items, same⟩, bytes, user, ?_⟩
  have ready : SidWriter.checkFlushable v.user = .ok () v.user := user ▸ pending.ready
  have held : v.user.out.bytes = values := (congrArg (·.out.bytes) user).trans pending.values
  simp only [flush, bind, EStateM.bind, focus, runs, SidWriter.flushWrites, same.checks, bytes]
  cases Sink.write system sink with
  | error e sink => rfl
  | ok _ sink =>
    simp only [ready, held]
    cases Sink.write values sink with
    | error e sink => rfl
    | ok _ sink =>
      simp only [EStateM.adaptExcept]
      cases Sink.flush sink <;> rfl

def delivery (data : Bytes) (limit : Nat) (failsFlush : Bool) : Reply :=
  if limit < data.length then .flushFailed (.output .full) ⟨some limit, failsFlush, data.take limit⟩
  else if failsFlush then .flushFailed (.output .flush) ⟨some limit, failsFlush, data⟩
  else .flushed data.length ⟨some limit, failsFlush, data⟩

def unsent (system values : Bytes) (limit : Nat) : Bytes :=
  if limit < system.length then system ++ values
  else if limit < (system ++ values).length then values
  else []

/-- The flush of `w` gives the sink what it has room for, in order. What comes next begins with the
first buffer that the sink did not take as a whole. -/
structure Delivers (w : SessionWriter) (system values : Bytes) (limit : Nat) (failsFlush : Bool) :
    Prop where
  reply : (w.perform (.flush (.empty (some limit) failsFlush))).1 =
    delivery (system ++ values) limit failsFlush
  next : ((w.perform (.flush (.empty (some limit) failsFlush))).2.perform (.flush (.empty none false))).1 =
    .flushed (unsent system values limit).length ⟨none, false, unsent system values limit⟩
  symbols : (w.perform (.flush (.empty (some limit) failsFlush))).2.symbols = w.symbols

theorem Pending.sends (pending : w.Pending system values) :
    (w.perform (.flush (.empty none false))).1 =
      .flushed (system ++ values).length ⟨none, false, system ++ values⟩ := by
  obtain ⟨v, -, -, -, -, -, sent⟩ := pending.steps ⟨none, false, []⟩
  rw [Sink.writeUnlimited system ⟨none, false, []⟩ rfl] at sent
  dsimp only at sent
  rw [Sink.writeUnlimited values ⟨none, false, [] ++ system⟩ rfl] at sent
  rw [List.length_append]
  exact congrArg Prod.fst (Reply.flushedIff.mpr sent)

theorem Pending.leaves {v : SessionWriter} {left right : Bytes} {limit : Nat} {failsFlush : Bool}
    (later : v.Pending left right)
    (performed : w.perform (.flush (.empty (some limit) failsFlush)) =
      (delivery (system ++ values) limit failsFlush, v))
    (rest : left ++ right = unsent system values limit) (symbols : v.symbols = w.symbols) :
    w.Delivers system values limit failsFlush := by
  have sends := later.sends
  rw [rest] at sends
  constructor <;> rw [performed]
  · exact sends
  · exact symbols

theorem Pending.delivers (pending : w.Pending system values) (limit : Nat) (failsFlush : Bool) :
    w.Delivers system values limit failsFlush := by
  obtain ⟨v, symbols, quiet, ⟨items, same⟩, bytes, user, sent⟩ :=
    pending.steps ⟨some limit, failsFlush, []⟩
  have ready : SidWriter.checkFlushable v.user = .ok () v.user := user ▸ pending.ready
  have held : v.user.out.bytes = values := (congrArg (·.out.bytes) user).trans pending.values
  have silent : Item.encodeAll? v.announcement = .ok [] := by rw [quiet]; rfl
  by_cases first : limit < system.length
  · -- both buffers go on as they were
    have short : limit < (system ++ values).length := by
      rw [List.length_append]
      omega
    have later : SessionWriter.Pending { v with system := v.system.resumed } system values := by
      refine ⟨⟨items, [], same.resumed, silent, ?_⟩, ready, held⟩
      rw [List.append_nil, SidWriter.resumedBytes, bytes]
    rw [Sink.writeOver (Nat.zero_le _) (by simpa using first), List.nil_append,
      ← List.take_append_of_le_length (Nat.le_of_lt first)] at sent
    refine later.leaves ?_ ?_ symbols
    · rw [delivery, if_pos short]
      exact Reply.flushFailedIff.mpr sent
    · rw [unsent, if_pos first]
  · rw [Sink.writeWithin (by simpa using first)] at sent
    dsimp only at sent
    by_cases second : limit < (system ++ values).length
    · -- the system values are through
      have later : SessionWriter.Pending
          { v with system := v.system.restart, user := v.user.resumed } [] values := by
        refine ⟨⟨[], [], same.restarts, silent, ?_⟩, SidWriter.resumedReady ready, ?_⟩
        · rw [List.append_nil, SidWriter.restartBytes]
        · rw [SidWriter.resumedBytes, held]
      rw [Sink.writeOver (by simpa using first) (by simpa using second)] at sent
      refine later.leaves ?_ ?_ symbols
      · rw [delivery, if_pos second]
        exact Reply.flushFailedIff.mpr sent
      · rw [unsent, if_neg first, if_pos second]
        rfl
    · -- only the flush of the sink is left
      have later : SessionWriter.Pending
          { v with system := v.system.restart, user := v.user.restart } [] [] := by
        refine ⟨⟨[], [], same.restarts, silent, ?_⟩, SidWriter.restartReady ready, SidWriter.restartBytes _⟩
        rw [List.append_nil, SidWriter.restartBytes]
      rw [Sink.writeWithin (by simpa using second)] at sent
      refine later.leaves ?_ ?_ symbols
      · rw [delivery, if_neg second]
        cases failsFlush with
        | false =>
          rw [List.length_append]
          exact Reply.flushedIff.mpr sent
        | true => exact Reply.flushFailedIff.mpr sent
      · rw [unsent, if_neg first, if_neg second]
        rfl

end SessionWriter

/-- Whatever the session went through, a flush that its values allow loses nothing and reorders
nothing. -/
theorem flushDelivers (blockSize : Nat) (tables : List SharedTable) {history : List SessionRequest}
    {w : SessionWriter} {user : SidWriter}
    (reached : Calls.after SessionWriter.perform (.empty blockSize tables) history = w)
    (ready : SidWriter.checkFlushable w.user = .ok () user) :
    ∃ head, Item.encodeAll? w.announcement = .ok head ∧
      ∀ limit failsFlush, w.Delivers (w.system.out.bytes ++ head) w.user.out.bytes limit failsFlush := by
  have twin : SessionWriter.Twin tables (max blockSize 16) w w := by
    rw [← reached]
    exact Calls.afterAlike (fun request => SessionWriter.Twin.performs request) (.empty blockSize tables)
      history
  obtain ⟨items, same⟩ := twin.system.values
  obtain ⟨head, encoded⟩ := w.announcementEncodes
  obtain ⟨rfl, -⟩ := SidWriter.checkedReady ready
  have pending : w.Pending (w.system.out.bytes ++ head) w.user.out.bytes :=
    ⟨⟨items, head, same, encoded, rfl⟩, ready, rfl⟩
  exact ⟨head, encoded, pending.delivers⟩

theorem deliversTableFirst :
    let w := Calls.after SessionWriter.perform (.empty Pool.defaultBlockSize [])
      [.writeSymbol "ion", .flush (.empty (some 6) false)]
    w.user.below = [] ∧
      w.Delivers
        [0xE0, 0x01, 0x00, 0xEA, 0xE9, 0x81, 0x83, 0xD6, 0x87, 0xB4, 0x83, 0x69, 0x6F, 0x6E] [0x71, 0x0A]
        15 false := by
  intro w
  have reached : Calls.after SessionWriter.perform (.empty Pool.defaultBlockSize []) _ = w := rfl
  have closed : w.user.below = [] := by decide +kernel
  have bare : w.user.annotations = [] := by decide +kernel
  have healthy : w.user.poisoned = false := by decide +kernel
  have announced : (Item.encodeAll? w.announcement).toOption = some [] := by decide +kernel
  have system : w.system.out.bytes =
      [0xE0, 0x01, 0x00, 0xEA, 0xE9, 0x81, 0x83, 0xD6, 0x87, 0xB4, 0x83, 0x69, 0x6F, 0x6E] := by
    decide +kernel
  have values : w.user.out.bytes = [0x71, 0x0A] := by decide +kernel
  clear_value w
  obtain ⟨head, encoded, delivers⟩ :=
    flushDelivers Pool.defaultBlockSize [] reached (SidWriter.readyChecks closed bare healthy)
  rw [encoded] at announced
  cases announced
  have sent := delivers 15 false
  rw [List.append_nil, system, values] at sent
  exact ⟨closed, sent⟩

end Ion
