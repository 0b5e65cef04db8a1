import Ion.Proofs.SharedBuffer
import Ion.Proofs.Slices
import Ion.Proofs.Words

/-! What is written in one streak, whatever was written before it and wherever the blocks end, is read
back by the reads that match the writes, one after the other, and nothing behind it is touched. -/
namespace Ion

inductive Primitive
  | byte (b : UInt8)
  | bytes (raw : Bytes)
  | text (s : String)
  | uint (n : UInt64) (width : Fin 9)
  | varUInt (n : UInt64)
  | varInt (negative : Bool) (magnitude : UInt64)
  deriving DecidableEq, Repr

inductive ReadCall
  | byte
  | bytes (count : Nat)
  | text (count : Nat)
  | uint (width : Nat)
  | varUInt
  | varInt
  deriving DecidableEq, Repr

inductive Datum
  | byte (b : UInt8)
  | bytes (raw : Bytes)
  | text (s : String)
  | number (n : Nat)
  | signed (negative : Bool) (magnitude : Nat)
  deriving DecidableEq, Repr

namespace ReadCall

def perform : ReadCall → Read Datum
  | byte => Datum.byte <$> Cursor.u8
  | bytes count => Datum.bytes <$> Cursor.bytes count
  | text count => Datum.text <$> Cursor.text count
  | uint width => Datum.number <$> Cursor.uint width
  | varUInt => Datum.number <$> Cursor.varUInt
  | varInt => (fun (negative, magnitude) => Datum.signed negative magnitude) <$> Cursor.varInt

def performAll : List ReadCall → Read (List Datum)
  | [] => return []
  | call :: calls => do
    let datum ← call.perform
    let data ← performAll calls
    return datum :: data

end ReadCall

namespace Primitive

def encode : Primitive → Bytes
  | byte b => [b]
  | bytes raw => raw
  | text s => Bytes.ofText s
  | uint n width => Bytes.be width n.toNat
  | varUInt n => VarUInt.encode n.toNat
  | varInt negative magnitude => VarInt.encode negative magnitude.toNat

def size : Primitive → Nat
  | byte _ => 1
  | bytes raw => raw.length
  | text s => s.utf8ByteSize
  | uint _ width => width
  | varUInt n => VarUInt.length n.toNat
  | varInt _ magnitude => VarInt.length magnitude.toNat

def call : Primitive → ReadCall
  | byte _ => .byte
  | bytes raw => .bytes raw.length
  | text s => .text s.utf8ByteSize
  | uint _ width => .uint width
  | varUInt _ => .varUInt
  | varInt _ _ => .varInt

def datum : Primitive → Datum
  | byte b => .byte b
  | bytes raw => .bytes raw
  | text s => .text s
  | uint n width => .number (n.toNat % 256 ^ width.val)
  | varUInt n => .number n.toNat
  | varInt negative magnitude => .signed negative magnitude.toNat

end Primitive

theorem Bytes.lengthOfText (s : String) : (ofText s).length = s.utf8ByteSize := by
  rw [ofText, Array.length_toList]
  exact String.size_toByteArray

namespace Cursor

variable {c c' : Cursor} {raw more : Bytes}

theorem takeAhead {meaning : Bytes → Except ReadError α} {a : α} (sound : c.Sound)
    (ahead : c.rest = raw ++ more) (means : meaning raw = .ok a) :
    take raw.length meaning c = .ok a (c.advance raw.length) := by
  rw [take, if_pos (sound.room ahead), ahead, List.take_left, means]

theorem mapOk {act : Read α} {a : α} (f : α → β) (ok : act c = .ok a c') :
    (f <$> act) c = .ok (f a) c' := by
  simp only [Functor.map, EStateM.map, ok]

end Cursor

theorem Primitive.encodeLength (p : Primitive) : p.encode.length = p.size := by
  cases p with
  | byte b => rfl
  | bytes raw => rfl
  | text s => exact Bytes.lengthOfText s
  | uint n width => exact Bytes.beLength width n.toNat
  | varUInt n => exact VarUInt.encodeLength n.toNat
  | varInt negative magnitude => exact VarInt.encodeLength negative magnitude.toNat

namespace ReadCall

open Cursor

variable {c : Cursor} {more : Bytes}

theorem performWritten (p : Primitive) (sound : c.Sound) (ahead : c.rest = p.encode ++ more) :
    p.call.perform c = .ok p.datum (c.advance p.encode.length) := by
  cases p with
  | byte b => exact mapOk _ (Scan.liftOk (Scan.takesByte b more c sound ahead))
  | bytes raw => exact mapOk _ (takeAhead sound ahead rfl)
  | text s =>
    have taken : Cursor.text (Bytes.ofText s).length c = .ok s (c.advance (Bytes.ofText s).length) := by
      rw [Cursor.text]
      exact takeAhead sound ahead (by rw [Bytes.textOfText])
    rw [Primitive.call, ← Bytes.lengthOfText]
    exact mapOk _ taken
  | uint n width =>
    have narrow : ¬8 < width.val := by omega
    have taken : take (Bytes.be width n.toNat).length (fun raw => .ok (Bytes.value raw)) c =
        .ok (Bytes.value (Bytes.be width n.toNat)) (c.advance (Bytes.be width n.toNat).length) :=
      takeAhead sound ahead rfl
    have read : Cursor.uint width c = .ok (n.toNat % 256 ^ width.val) (c.advance width) := by
      rw [Cursor.uint, if_neg narrow]
      rwa [Bytes.beLength, Bytes.valueBeLow] at taken
    rw [Primitive.encode, Bytes.beLength]
    exact mapOk _ read
  | varUInt n => exact mapOk _ (Scan.liftOk (Scan.takesVarUInt n.toNat_lt more c sound ahead))
  | varInt negative magnitude =>
    exact mapOk _ (Scan.liftOk (Scan.takesVarInt negative magnitude.toNat_lt more c sound ahead))

theorem performAllWritten (writes : List Primitive) (sound : c.Sound)
    (ahead : c.rest = writes.flatMap Primitive.encode ++ more) :
    performAll (writes.map Primitive.call) c =
      .ok (writes.map Primitive.datum) (c.advance (writes.flatMap Primitive.encode).length) := by
  induction writes generalizing c with
  | nil =>
    rw [List.flatMap_nil, List.length_nil, advanceNothing]
    rfl
  | cons p rest ih =>
    rw [List.flatMap_cons, List.append_assoc] at ahead
    have one := performWritten p sound ahead
    have later := ih (sound.behind ahead) (advanceRest ahead)
    rw [List.flatMap_cons, List.length_append, ← advanceAdvance]
    simp only [List.map_cons, performAll, bind, EStateM.bind, one, later]
    rfl

end ReadCall

namespace PlainLists

theorem performLength (m : PlainLists) (request : ListRequest) :
    (m.perform request).2.lists.length = m.lists.length := by
  cases request with
  | start k => exact List.length_set
  | write data =>
    cases writing : m.writing <;> simp only [perform, writing]
  | wrapup k =>
    cases writing : m.writing <;> simp only [perform, writing, Shelf.add, Shelf.clear, List.length_set]
  | splice a b => simp only [perform, Shelf.splice, Shelf.add, Shelf.clear, List.length_set]
  | reset => exact List.length_replicate

theorem afterLength (m : PlainLists) (requests : List ListRequest) :
    (Dialogue.after perform m requests).lists.length = m.lists.length := by
  induction requests generalizing m with
  | nil => rfl
  | cons request rest ih => exact (ih (m.perform request).2).trans (m.performLength request)

end PlainLists

namespace SharedBuffer

def bytes (d : SharedBuffer) (k : Nat) : Bytes := d.buffer.pool.listBytes (Shelf.list d.lists k)

variable {d : SharedBuffer}

theorem Holds.bytes {m : PlainLists} (holds : Holds d m) (k : Nat) : d.bytes k = Shelf.list m.lists k :=
  holds.spells.list k

theorem Holds.writes {list : Bytes} {plain : Shelf UInt8} (holds : Holds d ⟨some list, plain⟩)
    (data : List Bytes) :
    Dialogue.answers perform d (data.map .write) = data.map (.written ·.length) ∧
      Holds (Dialogue.after perform d (data.map .write)) ⟨some (list ++ data.flatten), plain⟩ := by
  induction data generalizing d list with
  | nil => exact ⟨rfl, by rwa [List.flatten_nil, List.append_nil]⟩
  | cons raw rest ih =>
    obtain ⟨answer, next⟩ := holds.write raw
    obtain ⟨answers, last⟩ := ih next
    rw [List.append_assoc] at last
    exact ⟨congr (congrArg List.cons answer) answers, last⟩

theorem Holds.streak {m : PlainLists} (holds : Holds d m) (idle : d.buffer.inStreak = false) {k : Nat}
    (there : k < m.lists.length) (data : List Bytes) :
    let requests := .start k :: (data.map .write ++ [.wrapup k])
    Dialogue.answers perform d requests = .done :: (data.map (.written ·.length) ++ [.wrapped true]) ∧
      (Dialogue.after perform d requests).bytes k = d.bytes k ++ data.flatten := by
  have started : Holds (d.perform (.start k)).2 ⟨some (Shelf.list m.lists k), Shelf.clear m.lists k⟩ :=
    holds.start idle k
  obtain ⟨answers, written⟩ := started.writes data
  obtain ⟨answer, placed⟩ := written.wrapup k
  intro requests
  have after : Dialogue.after perform d requests =
      (Dialogue.after perform (d.perform (.start k)).2 (data.map .write) |>.perform (.wrapup k)).2 :=
    Dialogue.afterAppend _ _ _
  refine ⟨?_, ?_⟩
  · refine congrArg (ListReply.done :: ·) ?_
    rw [Dialogue.answersAppend, answers]
    exact congrArg (_ ++ [·]) answer
  · rw [after, placed.bytes k, holds.bytes k, PlainLists.perform]
    simp [Shelf.list, Shelf.add, Shelf.clear, there]

end SharedBuffer

/-- Whatever was done before, what is written in one streak stands behind what the list held, every call
reports the length of what it wrote, and behind any bytes and before any others the matching reads give all
of it again and stop at its end. A variable-length number is what is shifted out of its word, and a shorter
string does not read as the same number. -/
theorem primitivesReadBack (blockSize size k : Nat) (there : k < size) (earlier : List ListRequest)
    (allowed : Dialogue.Along SharedBuffer.perform SharedBuffer.Allows (.empty blockSize size)
      (earlier ++ [.start k]))
    (writes : List Primitive) :
    let before := Dialogue.after SharedBuffer.perform (.empty blockSize size) earlier
    let streak := .start k :: (writes.map (.write ·.encode) ++ [.wrapup k])
    let later := Dialogue.after SharedBuffer.perform before streak
    Dialogue.answers SharedBuffer.perform before streak =
        .done :: (writes.map (.written ·.size) ++ [.wrapped true]) ∧
      (∃ written, later.bytes k = before.bytes k ++ written ∧
        ∀ front suffix : Bytes, let data := front ++ written ++ suffix
          ReadCall.performAll (writes.map (·.call)) (.window data front.length data.length) =
            .ok (writes.map (·.datum)) (.window data (front.length + written.length) data.length)) ∧
      (∀ n : UInt64, VarUInt.encode n.toNat = VarUInt.ofWord n) ∧
      (∀ negative (n : UInt64), VarInt.encode negative n.toNat = VarInt.ofWord negative n) ∧
      (∀ raw n c, Cursor.varUInt (.ofBytes raw) = .ok n c → VarUInt.length n ≤ raw.length) ∧
      ∀ raw negative n c, Cursor.varInt (.ofBytes raw) = .ok (negative, n) c → VarInt.length n ≤ raw.length := by
  intro before streak later
  obtain ⟨along, startable⟩ := Dialogue.alongAppend.mp allowed
  have holds := Dialogue.stayRelated SharedBuffer.Holds (SharedBuffer.emptyHolds blockSize size) along
    fun holds may => (holds.performs may).2
  have room : k < (Dialogue.after PlainLists.perform (.empty size) earlier).lists.length := by
    rw [PlainLists.afterLength]
    exact there.trans_eq List.length_replicate.symm
  -- the buffer is told bytes only, so the streak is one of encodings
  have requests : streak = .start k :: ((writes.map Primitive.encode).map .write ++ [.wrapup k]) := by
    rw [List.map_map]
    rfl
  have run := holds.streak startable.1 room (writes.map Primitive.encode)
  rw [← requests] at run
  refine ⟨run.1.trans ?_, ⟨_, run.2, ?_⟩, VarUInt.encodeWord, VarInt.encodeWord, ?_, ?_⟩
  · rw [List.map_map]
    simp only [Function.comp_def, Primitive.encodeLength]
  · intro front suffix data
    have sound : (Cursor.window data front.length data.length).Sound :=
      Cursor.windowSound (by simp only [data, List.length_append]; omega) (Nat.le_refl _)
    have ahead : (Cursor.window data front.length data.length).rest =
        writes.flatMap Primitive.encode ++ suffix := by
      simp only [Cursor.window, data, List.take_length, List.append_assoc, List.drop_left]
      rfl
    have read := ReadCall.performAllWritten writes sound ahead
    rwa [Cursor.windowAdvance] at read
  · intro raw n c read
    obtain ⟨used, decoded, -⟩ := Cursor.numberDecodes read
    exact Nat.le_trans (VarUInt.decodeLength decoded) (VarUInt.digitsUsed decoded).2
  · intro raw negative n c read
    obtain ⟨used, decoded, -⟩ := Cursor.varIntDecodes read
    exact Nat.le_trans (VarInt.decodeLength decoded) (VarInt.decodeUsed decoded).2

theorem boundaryPrimitivesReadBack :
    let earlier : List ListRequest := [.start 0, .write (List.replicate 14 7), .wrapup 0]
    let writes : List Primitive := [.varUInt 0x4000, .varInt true 0, .uint 0x10203 2,
      .varUInt 0xffffffffffffffff, .varInt true 0x4000000000000000, .text "é", .uint 5 0, .bytes [0x80],
      .byte 1]
    let streak := .start 0 :: (writes.map (.write ·.encode) ++ [.wrapup 0])
    let before := Dialogue.after SharedBuffer.perform (.empty 1 2) earlier
    0 < 2 ∧ Dialogue.Along SharedBuffer.perform SharedBuffer.Allows (.empty 1 2) (earlier ++ [.start 0]) ∧
      before.buffer.blockSize = 16 ∧
      Dialogue.answers SharedBuffer.perform before streak =
        [.done, .written 3, .written 1, .written 2, .written 10, .written 10, .written 2, .written 0,
          .written 1, .written 1, .wrapped true] ∧
      ∃ written : Bytes, (Dialogue.after SharedBuffer.perform before streak).bytes 0 =
          List.replicate 14 7 ++ written ∧
        ReadCall.performAll (writes.map (·.call)) (.window (written ++ [0x81]) 0 (written ++ [0x81]).length) =
          .ok [.number 0x4000, .signed true 0, .number 0x203, .number 0xffffffffffffffff,
              .signed true 0x4000000000000000, .text "é", .number 0, .bytes [0x80], .byte 1]
            (.window (written ++ [0x81]) written.length (written ++ [0x81]).length) := by
  intro earlier writes streak before
  have allowed : Dialogue.Along SharedBuffer.perform SharedBuffer.Allows (.empty 1 2)
      (earlier ++ [.start 0]) := by
    simp only [Dialogue.Along, SharedBuffer.Allows, earlier, List.cons_append, List.nil_append]
    decide +kernel
  obtain ⟨answers, ⟨written, held, readBack⟩, -⟩ :=
    primitivesReadBack 1 2 0 (by decide) earlier allowed writes
  have old : before.bytes 0 = List.replicate 14 7 := by decide +kernel
  have read := readBack [] [0x81]
  rw [List.nil_append, List.length_nil, Nat.zero_add] at read
  exact ⟨by decide, allowed, by decide +kernel, answers.trans (by decide +kernel), written,
    old ▸ held, read.trans rfl⟩

end Ion
