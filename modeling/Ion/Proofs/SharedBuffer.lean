import Ion.Proofs.Dialogues
import Ion.Proofs.Frames
import Ion.Proofs.Segments

/-! Several lists written through one buffer. They share its blocks and its place of writing, yet each
spells what was written for it and nothing else, as if every list had its bytes to itself. -/
namespace Ion

abbrev Shelf (α : Type) := List (List α)

namespace Shelf

def empty (size : Nat) : Shelf α := List.replicate size []

def list (s : Shelf α) (k : Nat) : List α := s[k]?.getD []

def clear (s : Shelf α) (k : Nat) : Shelf α := s.set k []

def add (s : Shelf α) (k : Nat) (more : List α) : Shelf α := s.set k (list s k ++ more)

def splice (s : Shelf α) (a b : Nat) : Shelf α := add (clear s b) a (list s b)

theorem behindSwapped (front a b : List α) : (front ++ a ++ b).Perm (front ++ b ++ a) := by
  rw [List.append_assoc, List.append_assoc]
  exact List.perm_append_comm.append_left front

theorem clearFlatten (s : Shelf α) (k : Nat) : ((clear s k).flatten ++ list s k).Perm s.flatten := by
  induction s generalizing k with
  | nil => exact .refl _
  | cons first rest ih =>
    cases k with
    | zero => exact List.perm_append_comm
    | succ k =>
      rw [clear, List.set_cons_succ, List.flatten_cons, List.flatten_cons, List.append_assoc]
      exact (ih k).append_left first

theorem addFlatten (s : Shelf α) (k : Nat) (more : List α) :
    ∃ lost, ((add s k more).flatten ++ lost).Perm (s.flatten ++ more) := by
  induction s generalizing k with
  | nil => exact ⟨more, .refl _⟩
  | cons first rest ih =>
    cases k with
    | zero =>
      refine ⟨[], ?_⟩
      rw [add, List.set_cons_zero, List.flatten_cons, List.flatten_cons, List.append_nil]
      exact behindSwapped first more rest.flatten
    | succ k =>
      obtain ⟨lost, perm⟩ := ih k
      refine ⟨lost, ?_⟩
      rw [add, List.set_cons_succ, List.flatten_cons, List.flatten_cons, List.append_assoc,
        List.append_assoc]
      exact perm.append_left first

theorem spliceFlatten (s : Shelf α) (a b : Nat) :
    ∃ lost, ((splice s a b).flatten ++ lost).Perm s.flatten := by
  obtain ⟨lost, perm⟩ := addFlatten (clear s b) a (list s b)
  exact ⟨lost, perm.trans (clearFlatten s b)⟩

section Map

variable (f : List α → List β) (s : Shelf α)

theorem mapList (nil : f [] = []) (k : Nat) : list (s.map f) k = f (list s k) := by
  unfold list
  rw [List.getElem?_map]
  cases s[k]? with
  | none => exact nil.symm
  | some l => rfl

theorem mapClear (nil : f [] = []) (k : Nat) : (clear s k).map f = clear (s.map f) k := by
  rw [clear, List.map_set, nil, clear]

theorem mapAdd (nil : f [] = []) (append : ∀ a b, f (a ++ b) = f a ++ f b) (k : Nat) (more : List α) :
    (add s k more).map f = add (s.map f) k (f more) := by
  rw [add, List.map_set, append, ← mapList f s nil, add]

end Map

end Shelf

inductive ListRequest
  | start (k : Nat)
  | write (data : Bytes)
  | wrapup (k : Nat)
  | splice (a b : Nat)
  | reset
  deriving DecidableEq, Repr

inductive ListReply
  | done
  | written (count : Nat)
  -- nothing could be written
  | refused
  -- whether there was a list to wrap up
  | wrapped (found : Bool)
  deriving DecidableEq, Repr

structure SharedBuffer where
  buffer : SegmentBuffer
  lists : Shelf Segment
  deriving DecidableEq, Repr

namespace SharedBuffer

def empty (blockSize size : Nat) : SharedBuffer := ⟨.empty blockSize, .empty size⟩

def perform (d : SharedBuffer) : ListRequest → ListReply × SharedBuffer
  | .start k => (.done, ⟨d.buffer.startStreak (Shelf.list d.lists k), Shelf.clear d.lists k⟩)
  | .write data =>
    match d.buffer.write? data with
    | some buffer => (.written data.length, { d with buffer })
    | none => (.refused, d)
  | .wrapup k =>
    match d.buffer.wrapup with
    | (some list, buffer) => (.wrapped true, ⟨buffer, Shelf.add (Shelf.clear d.lists k) k list⟩)
    | (none, buffer) => (.wrapped false, { d with buffer })
  | .splice a b => (.done, { d with lists := Shelf.splice d.lists a b })
  | .reset => (.done, ⟨d.buffer.reset, .empty d.lists.length⟩)

def Allows (d : SharedBuffer) : ListRequest → Prop
  | .start _ => d.buffer.inStreak = false
  | _ => True

def recorded (d : SharedBuffer) : SegmentList :=
  match d.buffer with
  | .idle _ => d.lists.flatten
  | .writing streak => d.lists.flatten ++ streak.target

end SharedBuffer

structure PlainLists where
  -- the list being written
  writing : Option Bytes
  lists : Shelf UInt8
  deriving DecidableEq, Repr

namespace PlainLists

def empty (size : Nat) : PlainLists := ⟨none, .empty size⟩

def perform (m : PlainLists) : ListRequest → ListReply × PlainLists
  | .start k => (.done, ⟨some (Shelf.list m.lists k), Shelf.clear m.lists k⟩)
  | .write data =>
    match m.writing with
    | some list => (.written data.length, { m with writing := some (list ++ data) })
    | none => (.refused, m)
  | .wrapup k =>
    match m.writing with
    | some list => (.wrapped true, ⟨none, Shelf.add (Shelf.clear m.lists k) k list⟩)
    | none => (.wrapped false, m)
  | .splice a b => (.done, { m with lists := Shelf.splice m.lists a b })
  | .reset => (.done, .empty m.lists.length)

end PlainLists

namespace Pool

structure Spells (p : Pool) (lists : Shelf Segment) (plain : Shelf UInt8) : Prop where
  settled : ∀ g ∈ lists.flatten, p.Settled g
  bytes : lists.map p.listBytes = plain

variable {p q : Pool} {lists : Shelf Segment} {plain : Shelf UInt8}

theorem listBytesNil (p : Pool) : p.listBytes [] = [] := rfl

theorem Laid.left {kept dropped list : SegmentList} (laid : p.Laid list)
    (perm : (kept ++ dropped).Perm list) : p.Laid kept := by
  have all := laid.rearranged perm.symm
  exact ⟨all.marked, all.apart.sublist (List.sublist_append_left _ _),
    fun g mem => all.behind g (List.mem_append_left _ mem)⟩

namespace Spells

theorem nothing (p : Pool) (size : Nat) : p.Spells (.empty size) (.empty size) := by
  refine ⟨fun g mem => ?_, ?_⟩
  · simp [Shelf.empty] at mem
  · simp [Shelf.empty, listBytesNil]

theorem keeps (spells : p.Spells lists plain) (keeps : p.Keeps q) : q.Spells lists plain := by
  refine ⟨fun g mem => keeps.settled g (spells.settled g mem), ?_⟩
  rw [← spells.bytes]
  refine List.map_congr_left fun list mem => ?_
  exact keeps.listBytes fun g inside => spells.settled g (List.mem_flatten_of_mem mem inside)

theorem listSettled (spells : p.Spells lists plain) (k : Nat) :
    ∀ g ∈ Shelf.list lists k, p.Settled g := fun g mem =>
  spells.settled g ((Shelf.clearFlatten lists k).mem_iff.mp (List.mem_append_right _ mem))

theorem list (spells : p.Spells lists plain) (k : Nat) :
    p.listBytes (Shelf.list lists k) = Shelf.list plain k := by
  rw [← spells.bytes, Shelf.mapList _ _ p.listBytesNil]

theorem clear (spells : p.Spells lists plain) (k : Nat) :
    p.Spells (Shelf.clear lists k) (Shelf.clear plain k) := by
  refine ⟨fun g mem => ?_, ?_⟩
  · exact spells.settled g ((Shelf.clearFlatten lists k).mem_iff.mp (List.mem_append_left _ mem))
  · rw [Shelf.mapClear _ _ p.listBytesNil, spells.bytes]

theorem add (spells : p.Spells lists plain) (k : Nat) {more : SegmentList}
    (settled : ∀ g ∈ more, p.Settled g) :
    p.Spells (Shelf.add lists k more) (Shelf.add plain k (p.listBytes more)) := by
  refine ⟨fun g mem => ?_, ?_⟩
  · obtain ⟨lost, perm⟩ := Shelf.addFlatten lists k more
    rcases List.mem_append.mp (perm.mem_iff.mp (List.mem_append_left lost mem)) with old | new
    · exact spells.settled g old
    · exact settled g new
  · rw [Shelf.mapAdd _ _ p.listBytesNil p.listBytesAppend, spells.bytes]

theorem splice (spells : p.Spells lists plain) (a b : Nat) :
    p.Spells (Shelf.splice lists a b) (Shelf.splice plain a b) := by
  have moved := (spells.clear b).add a (spells.listSettled b)
  rwa [spells.list b] at moved

end Spells

end Pool

namespace SharedBuffer

inductive Holds : SharedBuffer → PlainLists → Prop
  | idle {pool lists plain} (sound : pool.Sound) (spells : pool.Spells lists plain)
      (laid : pool.Laid lists.flatten) : Holds ⟨.idle pool, lists⟩ ⟨none, plain⟩
  | writing {streak lists plain list} (sound : streak.Sound)
      (spells : streak.pool.Spells lists plain) (laid : streak.Laid lists.flatten)
      (written : streak.bytes = list) : Holds ⟨.writing streak, lists⟩ ⟨some list, plain⟩

variable {d : SharedBuffer} {m : PlainLists}

theorem emptyHolds (blockSize size : Nat) : Holds (.empty blockSize size) (.empty size) := by
  refine .idle (Pool.emptySound blockSize) (.nothing _ size) ?_
  refine ⟨Nat.le_refl _, ?_, ?_⟩ <;> simp [Shelf.empty]

namespace Holds

theorem start (holds : Holds d m) (idle : d.buffer.inStreak = false) (k : Nat) :
    Holds (d.perform (.start k)).2 (m.perform (.start k)).2 := by
  cases holds with
  | idle sound spells laid =>
    refine .writing (Streak.startSound sound (spells.listSettled k)) ?_ ?_ ?_
    · exact (spells.clear k).keeps (Pool.markKeeps _)
    · exact Streak.startLaid (laid.rearranged (Shelf.clearFlatten _ k).symm)
    · exact (Streak.startBytes _ _).trans (spells.list k)
  | writing => contradiction

theorem write (holds : Holds d m) (data : Bytes) :
    (d.perform (.write data)).1 = (m.perform (.write data)).1 ∧
      Holds (d.perform (.write data)).2 (m.perform (.write data)).2 := by
  cases holds with
  | idle sound spells laid => exact ⟨rfl, .idle sound spells laid⟩
  | writing sound spells laid written =>
    have grows := Streak.writeGrows sound data
    refine ⟨rfl, .writing grows.sound (spells.keeps grows.keeps) (laid.write data) ?_⟩
    rw [grows.bytes, written]

theorem wrapup (holds : Holds d m) (k : Nat) :
    (d.perform (.wrapup k)).1 = (m.perform (.wrapup k)).1 ∧
      Holds (d.perform (.wrapup k)).2 (m.perform (.wrapup k)).2 := by
  cases holds with
  | idle sound spells laid => exact ⟨rfl, .idle sound spells laid⟩
  | @writing streak lists plain list sound spells laid written =>
    have placed := ((spells.keeps (Streak.finishKeeps sound)).clear k).add k (Streak.finishSettled sound)
    rw [Streak.finishBytes, written] at placed
    refine ⟨rfl, .idle (Streak.finishSound sound) placed ?_⟩
    obtain ⟨lost, perm⟩ := Shelf.addFlatten (Shelf.clear lists k) k streak.finish.1
    -- the list that was under the number is given up
    have givenUp : ((Shelf.clear lists k).flatten ++ streak.finish.1 ++ Shelf.list lists k).Perm
        (lists.flatten ++ streak.finish.1) :=
      (Shelf.behindSwapped _ _ _).trans ((Shelf.clearFlatten lists k).append_right _)
    exact (laid.finish.left givenUp).left perm

theorem splice (holds : Holds d m) (a b : Nat) :
    Holds (d.perform (.splice a b)).2 (m.perform (.splice a b)).2 := by
  cases holds with
  | @idle pool lists plain sound spells laid =>
    obtain ⟨lost, perm⟩ := Shelf.spliceFlatten lists a b
    exact .idle sound (spells.splice a b) (laid.left perm)
  | @writing streak lists plain list sound spells laid written =>
    obtain ⟨lost, perm⟩ := Shelf.spliceFlatten lists a b
    have moved : ((Shelf.splice lists a b).flatten ++ streak.target ++ lost).Perm
        (lists.flatten ++ streak.target) :=
      (Shelf.behindSwapped _ _ _).trans (perm.append_right streak.target)
    exact .writing sound (spells.splice a b) (Pool.Laid.left laid moved) written

theorem reset (holds : Holds d m) : Holds (d.perform .reset).2 (m.perform .reset).2 := by
  have same : m.lists.length = d.lists.length := by
    cases holds with
    | idle sound spells | writing sound spells =>
      rw [← spells.bytes, List.length_map]
  have sound : d.buffer.pool.Sound := by
    cases holds with
    | idle sound => exact sound
    | writing sound => exact sound.pool
  have reset : (m.perform .reset).2 = ⟨none, .empty d.lists.length⟩ := by
    rw [PlainLists.perform, PlainLists.empty, same]
  rw [reset]
  refine .idle (Pool.resetSound sound) (.nothing _ _) ?_
  refine ⟨Nat.le_refl _, ?_, ?_⟩ <;> simp [Shelf.empty]

theorem performs (holds : Holds d m) {request : ListRequest} (allowed : d.Allows request) :
    (d.perform request).1 = (m.perform request).1 ∧
      Holds (d.perform request).2 (m.perform request).2 := by
  cases request with
  | start k => exact ⟨rfl, holds.start allowed k⟩
  | write data => exact holds.write data
  | wrapup k => exact holds.wrapup k
  | splice a b => exact ⟨rfl, holds.splice a b⟩
  | reset => exact ⟨rfl, holds.reset⟩

end Holds

end SharedBuffer

theorem Sink.writeRoom {sink : Sink} {room : Nat} (limited : sink.limit = some (sink.received.length + room))
    (data : Bytes) :
    let after : Sink := { sink with received := sink.received ++ data.take room }
    Sink.write data sink = if data.length ≤ room then .ok () after else .error .full after := by
  intro after
  have fits : sink.room data.length = min data.length room := by
    simp only [Sink.room, limited]
    omega
  have taken : data.take (min data.length room) = data.take room := by
    rw [← List.take_take, List.take_of_length_le]
    exact List.length_take_le' _ _
  have all : (min data.length room = data.length) = (data.length ≤ room) := by
    rw [eq_iff_iff]
    omega
  simp only [Sink.write, fits, taken, all]
  rfl

theorem Pool.writeToRoom (p : Pool) (list : SegmentList) {sink : Sink} {room : Nat}
    (limited : sink.limit = some (sink.received.length + room)) :
    let data := p.listBytes list
    let after : Sink := { sink with received := sink.received ++ data.take room }
    p.writeTo list sink = if data.length ≤ room then .ok data.length after else .error .full after := by
  intro data after
  rw [writeToBytes]
  simp only [bind, EStateM.bind, Sink.writeRoom limited]
  by_cases fits : (p.listBytes list).length ≤ room
  · rw [if_pos fits, if_pos fits]
    rfl
  · rw [if_neg fits, if_neg fits]

namespace SharedBuffer

structure Shows (d : SharedBuffer) (m : PlainLists) : Prop where
  lists : d.lists.map d.buffer.pool.listBytes = m.lists
  writing : d.buffer.wrapup.1.map d.buffer.wrapup.2.pool.listBytes = m.writing
  totals (list : SegmentList) (mem : list ∈ d.lists) : list.total = (d.buffer.pool.listBytes list).length
  segments g (mem : g ∈ d.recorded) : 0 < g.length ∧ g.length ≤ d.buffer.blockSize
  apart : d.recorded.Pairwise Segment.Apart
  sent (list : SegmentList) (mem : list ∈ d.lists) (sink : Sink) (room : Nat)
    (limited : sink.limit = some (sink.received.length + room)) :
    let after : Sink := { sink with received := sink.received ++ (d.buffer.pool.listBytes list).take room }
    d.buffer.pool.writeTo list sink =
      if list.total ≤ room then .ok list.total after else .error .full after
  refused (idle : d.buffer.inStreak = false) (data : Bytes) : d.perform (.write data) = (.refused, d)

variable {d : SharedBuffer} {m : PlainLists}

namespace Holds

theorem sound (holds : Holds d m) : d.buffer.pool.Sound := by
  cases holds with
  | idle sound => exact sound
  | writing sound => exact sound.pool

theorem spells (holds : Holds d m) : d.buffer.pool.Spells d.lists m.lists := by
  cases holds with
  | idle sound spells | writing sound spells => exact spells

theorem recordedSettled (holds : Holds d m) : ∀ g ∈ d.recorded, d.buffer.pool.Settled g := by
  intro g mem
  cases holds with
  | idle sound spells => exact spells.settled g mem
  | writing sound spells =>
    rcases List.mem_append.mp mem with parked | target
    · exact spells.settled g parked
    · exact sound.target g target

theorem shows (holds : Holds d m) : d.Shows m := by
  have total {list : SegmentList} (mem : list ∈ d.lists) :
      list.total = (d.buffer.pool.listBytes list).length :=
    (Pool.listLength holds.sound fun g inside =>
      (holds.spells.settled g (List.mem_flatten_of_mem mem inside)).toInside).symm
  refine ⟨holds.spells.bytes, ?_, fun _ => total, fun g mem => ?_, ?_, ?_, ?_⟩
  · cases holds with
    | idle => rfl
    | writing sound spells laid written => exact congrArg some ((Streak.finishBytes _).trans written)
  · have settled := holds.recordedSettled g mem
    exact ⟨settled.nonempty, Nat.le_trans (Nat.le_add_left _ _) settled.bound⟩
  · cases holds with
    | idle sound spells laid => exact laid.apart
    | writing sound spells laid => exact laid.apart
  · intro list mem sink room limited
    rw [total mem]
    exact d.buffer.pool.writeToRoom list limited
  · intro idle data
    cases holds with
    | idle => rfl
    | writing => contradiction

end Holds

end SharedBuffer

/-- Whatever is called on several lists in one buffer, as long as no streak is started within another:
the calls are answered as if every list had its bytes to itself, and each list spells just these bytes. -/
theorem listsKeepTheirBytes (blockSize size : Nat) (requests : List ListRequest)
    (allowed : Dialogue.Along SharedBuffer.perform SharedBuffer.Allows (.empty blockSize size) requests) :
    Dialogue.answers SharedBuffer.perform (.empty blockSize size) requests =
        Dialogue.answers PlainLists.perform (.empty size) requests ∧
      (Dialogue.after SharedBuffer.perform (.empty blockSize size) requests).Shows
        (Dialogue.after PlainLists.perform (.empty size) requests) := by
  have empty := SharedBuffer.emptyHolds blockSize size
  have same := Dialogue.answerTogether SharedBuffer.Holds id empty allowed
    fun holds may => (holds.performs may).imp_left Eq.symm
  have holds := Dialogue.stayRelated SharedBuffer.Holds empty allowed
    fun holds may => (holds.performs may).2
  rw [List.map_id] at same
  exact ⟨same.symm, holds.shows⟩

theorem interleavedListsKeepTheirBytes :
    let first : Bytes := List.replicate 14 7
    let requests : List ListRequest := [.start 0, .write first, .wrapup 0, .start 1, .write [1, 2, 3],
      .wrapup 1, .splice 1 0, .start 1, .write [4], .splice 0 2, .wrapup 2, .write []]
    Dialogue.Along SharedBuffer.perform SharedBuffer.Allows (.empty 16 3) requests ∧
      Dialogue.answers SharedBuffer.perform (.empty 16 3) requests =
        [.done, .written 14, .wrapped true, .done, .written 3, .wrapped true, .done, .done, .written 1, .done,
          .wrapped true, .refused] ∧
      (Dialogue.after SharedBuffer.perform (.empty 16 3) requests).Shows
        ⟨none, [[], [], [1, 2, 3] ++ first ++ [4]]⟩ := by
  intro first requests
  have allowed : Dialogue.Along SharedBuffer.perform SharedBuffer.Allows (.empty 16 3) requests := by
    simp only [Dialogue.Along, SharedBuffer.Allows, requests]
    decide +kernel
  obtain ⟨answers, shows⟩ := listsKeepTheirBytes 16 3 requests allowed
  have plain : Dialogue.after PlainLists.perform (.empty 3) requests =
      ⟨none, [[], [], [1, 2, 3] ++ first ++ [4]]⟩ := by decide +kernel
  refine ⟨allowed, answers.trans ?_, plain ▸ shows⟩
  decide +kernel

end Ion
