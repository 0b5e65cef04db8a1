import Ion.Json.Writing
import Ion.Proofs.Interning
import Ion.Proofs.JsonReading
import Ion.Proofs.SessionRoundTrip

/-! JSON written as Ion and read again: all that a session interns for a value are its keys, and the
tree that a reader shows under them is the value. -/
namespace Ion

namespace Name

def texts : Name → List String
  | text s => [s]
  | sid _ => []

theorem resolveTexts (t : SymbolTable) (name : Name) :
    (name.resolve t).2 = t.after (name.texts.map .intern) := by
  cases name <;> rfl

theorem resolveAllTexts (t : SymbolTable) (texts : List String) :
    (resolveAll t (texts.map .text)).2 = t.after (texts.map .intern) := by
  induction texts generalizing t with
  | nil => rfl
  | cons text rest ih => exact ih (t.intern text).2

end Name

namespace SessionRequest

def texts : SessionRequest → List String
  | .setField text | .annotate text | .writeSymbol text => [text]
  | .setFieldToken token | .annotateToken token | .writeSymbolToken token =>
    token.name?.elim [] Name.texts
  | .setAnnotations texts => texts
  | .clearAnnotations | .stepIn _ | .stepOut | .write _ | .flush _ | .finish _ | .reset => []

theorem resolveTexts {t t' : SymbolTable} {request : SessionRequest} {call : SidRequest}
    (resolved : request.resolve t = some (call, t')) : t' = t.after (request.texts.map .intern) := by
  cases request with
  | setField | annotate | writeSymbol | clearAnnotations | stepIn | stepOut | write =>
    cases resolved
    rfl
  | setFieldToken token | annotateToken token | writeSymbolToken token =>
    obtain ⟨name, known, same⟩ := Option.map_eq_some_iff.mp resolved
    cases same
    rw [texts, known]
    exact name.resolveTexts t
  | setAnnotations texts =>
    cases resolved
    exact Name.resolveAllTexts t texts
  | flush | finish | reset => contradiction

theorem Resolves.texts {t t' : SymbolTable} {requests : List SessionRequest} {calls : List SidRequest}
    (resolved : Resolves t requests calls t') :
    t' = t.after ((requests.flatMap SessionRequest.texts).map .intern) := by
  induction resolved with
  | nothing => rfl
  | first one more ih =>
    rw [ih, resolveTexts one, List.flatMap_cons, List.map_append]
    exact List.foldl_append.symm

end SessionRequest

namespace JsonValue

mutual

def Sound : JsonValue → Prop
  | null | bool _ | string _ => True
  | number (.int n) => -0x8000000000000000 ≤ n ∧ n < 0x10000000000000000
  | number (.float f) => f.isFinite
  | array items => SoundItems items
  | object members => (members.map Prod.fst).Nodup ∧ SoundMembers members

def SoundItems : List JsonValue → Prop
  | [] => True
  | item :: rest => item.Sound ∧ SoundItems rest

def SoundMembers : List (String × JsonValue) → Prop
  | [] => True
  | (_, item) :: rest => item.Sound ∧ SoundMembers rest

end

mutual

def keys : JsonValue → List String
  | null | bool _ | number _ | string _ => []
  | array items => itemKeys items
  | object members => memberKeys members

def itemKeys : List JsonValue → List String
  | [] => []
  | item :: rest => item.keys ++ itemKeys rest

def memberKeys : List (String × JsonValue) → List String
  | [] => []
  | (key, item) :: rest => key :: (item.keys ++ memberKeys rest)

end

mutual

def given (field : Option Name) : JsonValue → Given
  | null => .atom field [] (.null .null)
  | bool b => .atom field [] (.bool b)
  | number n => .atom field [] n.atom
  | string s => .atom field [] (.string s)
  | array items => .container field [] .list (itemsGiven items)
  | object members => .container field [] .struct (membersGiven members)

def itemsGiven : List JsonValue → List Given
  | [] => []
  | item :: rest => item.given none :: itemsGiven rest

def membersGiven : List (String × JsonValue) → List Given
  | [] => []
  | (key, item) :: rest => item.given (some (.text key)) :: membersGiven rest

end

mutual

def calls : JsonValue → List SessionRequest
  | null => [.write (.null .null)]
  | bool b => [.write (.bool b)]
  | number n => [.write n.atom]
  | string s => [.write (.string s)]
  | array items => .stepIn .list :: (itemCalls items ++ [.stepOut])
  | object members => .stepIn .struct :: (memberCalls members ++ [.stepOut])

def itemCalls : List JsonValue → List SessionRequest
  | [] => []
  | item :: rest => item.calls ++ itemCalls rest

def memberCalls : List (String × JsonValue) → List SessionRequest
  | [] => []
  | (key, item) :: rest => .setField key :: (item.calls ++ memberCalls rest)

end

mutual

theorem callTexts (v : JsonValue) : v.calls.flatMap SessionRequest.texts = v.keys := by
  match v with
  | null | bool _ | number _ | string _ => rfl
  | array items =>
    rw [calls, List.flatMap_cons, List.flatMap_append, itemTexts items]
    exact List.append_nil (itemKeys items)
  | object members =>
    rw [calls, List.flatMap_cons, List.flatMap_append, memberTexts members]
    exact List.append_nil (memberKeys members)

theorem itemTexts (items : List JsonValue) :
    (itemCalls items).flatMap SessionRequest.texts = itemKeys items := by
  match items with
  | [] => rfl
  | item :: rest => rw [itemCalls, List.flatMap_append, callTexts item, itemTexts rest, itemKeys]

theorem memberTexts (members : List (String × JsonValue)) :
    (memberCalls members).flatMap SessionRequest.texts = memberKeys members := by
  match members with
  | [] => rfl
  | (key, item) :: rest =>
    rw [memberCalls, List.flatMap_cons, List.flatMap_append, callTexts item, memberTexts rest]
    rfl

end

mutual

theorem written (v : JsonValue) {member : Bool} {field : Option Name}
    {before after : List SessionRequest} {rest : List Given}
    (announced : SessionRequest.announced member before = some ⟨field, []⟩)
    (more : Given.Written member rest after) :
    Given.Written member (v.given field :: rest) (before ++ (v.calls ++ after)) := by
  match v with
  | null | bool _ | number _ | string _ => exact .atom announced more
  | array items =>
    rw [calls, List.cons_append, List.append_assoc]
    exact .container announced (itemsWritten items) more
  | object members =>
    rw [calls, List.cons_append, List.append_assoc]
    exact .container announced (membersWritten members) more

theorem itemsWritten (items : List JsonValue) :
    Given.Written false (itemsGiven items) (itemCalls items) := by
  match items with
  | [] => exact .nothing
  | item :: rest =>
    have bare : SessionRequest.announced false [] = some ⟨none, []⟩ := rfl
    exact item.written bare (itemsWritten rest)

theorem membersWritten (members : List (String × JsonValue)) :
    Given.Written true (membersGiven members) (memberCalls members) := by
  match members with
  | [] => exact .nothing
  | (key, item) :: rest =>
    have named : SessionRequest.announced true [.setField key] = some ⟨some (.text key), []⟩ := rfl
    exact item.written named (membersWritten rest)

end

mutual

theorem writeRuns (v : JsonValue) {w w' : SessionWriter}
    (runs : Calls.Runs SessionWriter.perform w v.calls w') :
    SessionWriter.writeJson v w = .ok () w' := by
  match v with
  | null | bool _ | number _ | string _ => exact runs.calledOnce rfl
  | array items =>
    obtain ⟨inside, stepIn, runs⟩ := runs.called rfl
    obtain ⟨behind, inner, stepOut⟩ := runs.split
    rw [SessionWriter.writeJson, bindRuns stepIn, bindRuns (itemsRun items inner)]
    exact stepOut.calledOnce rfl
  | object members =>
    obtain ⟨inside, stepIn, runs⟩ := runs.called rfl
    obtain ⟨behind, inner, stepOut⟩ := runs.split
    rw [SessionWriter.writeJson, bindRuns stepIn, bindRuns (membersRun members inner)]
    exact stepOut.calledOnce rfl

theorem itemsRun (items : List JsonValue) {w w' : SessionWriter}
    (runs : Calls.Runs SessionWriter.perform w (itemCalls items) w') :
    SessionWriter.writeItems items w = .ok () w' := by
  match items with
  | [] =>
    cases runs.1
    rfl
  | item :: rest =>
    obtain ⟨behind, one, more⟩ := runs.split
    rw [SessionWriter.writeItems, bindRuns (item.writeRuns one)]
    exact itemsRun rest more

theorem membersRun (members : List (String × JsonValue)) {w w' : SessionWriter}
    (runs : Calls.Runs SessionWriter.perform w (memberCalls members) w') :
    SessionWriter.writeMembers members w = .ok () w' := by
  match members with
  | [] =>
    cases runs.1
    rfl
  | (key, item) :: rest =>
    obtain ⟨named, setField, runs⟩ := runs.called rfl
    obtain ⟨behind, one, more⟩ := runs.split
    rw [SessionWriter.writeMembers, bindRuns setField, bindRuns (item.writeRuns one)]
    exact membersRun rest more

end

mutual

theorem givenFormed (v : JsonValue) {member : Bool} {field : Option Name}
    (named : Given.Named member field []) : (v.given field).WellFormed member := by
  match v with
  | null | bool _ | string _ | number (.int _) | number (.float _) => exact ⟨named, trivial⟩
  | array items => exact ⟨named, itemsFormed items⟩
  | object members => exact ⟨named, membersFormed members⟩

theorem itemsFormed (items : List JsonValue) : Given.WellFormedAll false (itemsGiven items) := by
  match items with
  | [] => trivial
  | item :: rest => exact ⟨item.givenFormed ⟨rfl, by decide, by simp, by simp⟩, itemsFormed rest⟩

theorem membersFormed (members : List (String × JsonValue)) :
    Given.WellFormedAll true (membersGiven members) := by
  match members with
  | [] => trivial
  | (key, item) :: rest =>
    exact ⟨item.givenFormed ⟨rfl, by decide, by simp [Name.Fits], by simp⟩, membersFormed rest⟩

end

theorem givenPlain (v : JsonValue) : (v.given none).isTable = false := by cases v <;> rfl

theorem insertNew {key : String} {members : List (String × JsonValue)} (value : JsonValue)
    (new : key ∉ members.map Prod.fst) : insert key value members = members ++ [(key, value)] := by
  induction members with
  | nil => rfl
  | cons member rest ih =>
    obtain ⟨other, old⟩ := member
    rw [List.map_cons, List.mem_cons, not_or] at new
    rw [insert, if_neg (Ne.symm new.1), ih new.2, List.cons_append]

theorem insertAll {before after : List (String × JsonValue)}
    (distinct : ((before ++ after).map Prod.fst).Nodup) :
    after.foldl (fun acc (key, value) => insert key value acc) before = before ++ after := by
  induction after generalizing before with
  | nil => exact (List.append_nil before).symm
  | cons member rest ih =>
    obtain ⟨key, value⟩ := member
    have new : key ∉ before.map Prod.fst := by
      rw [List.map_append] at distinct
      exact fun old => List.disjoint_of_nodup_append distinct old List.mem_cons_self
    rw [List.append_cons] at distinct
    rw [List.foldl_cons, List.append_cons, ← ih distinct, ← insertNew value new]

theorem ofDistinct {members : List (String × JsonValue)} (distinct : (members.map Prod.fst).Nodup) :
    ofMembers members = object members := by
  have whole : (([] ++ members).map Prod.fst).Nodup := distinct
  rw [ofMembers, insertAll whole, List.nil_append]

theorem numberBack (t : SymbolTable) {n : JsonNumber} (sound : (number n).Sound) :
    n.atom.json t = number n := by
  cases n with
  | int n =>
    have held : -0x8000000000000000 ≤ n ∧ n < 0x10000000000000000 := sound
    rw [JsonNumber.atom, Atom.json, JsonNumber.ofInt?, if_pos held, Option.elim_some]
  | float f =>
    have finite : f.isFinite = true := sound
    rw [JsonNumber.atom, Atom.json, JsonNumber.ofFloat?, if_pos finite, Option.elim_some]

theorem nameShown {t : SymbolTable} {key : String} {names : List Name} {field : Option Nat}
    {sids : List Nat}
    (labels : Pending.Read t ⟨some (.text key), names⟩ ⟨field, sids⟩) :
    (field.map t.shown).getD "" = key := by
  obtain ⟨lengths, same⟩ := labels.field
  cases field with
  | none => contradiction
  | some sid =>
    have text : t.text? sid = some key := same (.text key, sid) List.mem_cons_self
    rw [Option.map_some, Option.getD_some, SymbolTable.shown, text, Option.getD_some]

mutual

theorem readBack (v : JsonValue) (sound : v.Sound) {t : SymbolTable} {field : Option Name}
    {rest : List Given} {trees : List Tree}
    (read : Given.Read t (v.given field :: rest) trees) :
    ∃ tree more, trees = tree :: more ∧ tree.json t = v ∧
      (∀ key, field = some (.text key) → tree.key t = key) ∧ Given.Read t rest more := by
  match v with
  | null | bool _ | string _ =>
    cases read with
    | atom labels more =>
      refine ⟨_, _, rfl, rfl, ?_, more⟩
      rintro key rfl
      exact nameShown labels
  | number n =>
    cases read with
    | atom labels more =>
      refine ⟨_, _, rfl, numberBack t sound, ?_, more⟩
      rintro key rfl
      exact nameShown labels
  | array items =>
    cases read with
    | container labels inner more =>
      refine ⟨_, _, rfl, congrArg array (itemsBack items sound inner), ?_, more⟩
      rintro key rfl
      exact nameShown labels
  | object members =>
    cases read with
    | container labels inner more =>
      refine ⟨_, _, rfl, ?_, ?_, more⟩
      · rw [Tree.json, membersBack members sound.2 inner, ofDistinct sound.1]
      · rintro key rfl
        exact nameShown labels

theorem itemsBack (items : List JsonValue) (sound : SoundItems items) {t : SymbolTable}
    {trees : List Tree} (read : Given.Read t (itemsGiven items) trees) : Tree.jsonItems t trees = items := by
  match items with
  | [] =>
    cases read
    rfl
  | item :: rest =>
    obtain ⟨tree, more, rfl, same, -, read⟩ := item.readBack sound.1 read
    rw [Tree.jsonItems, same, itemsBack rest sound.2 read]

theorem membersBack (members : List (String × JsonValue)) (sound : SoundMembers members)
    {t : SymbolTable} {trees : List Tree}
    (read : Given.Read t (membersGiven members) trees) : Tree.jsonMembers t trees = members := by
  match members with
  | [] =>
    cases read
    rfl
  | (key, item) :: rest =>
    obtain ⟨tree, more, rfl, same, named, read⟩ := item.readBack sound.1 read
    rw [Tree.jsonMembers, same, named key rfl, membersBack rest sound.2 read]

end

theorem encodes (v : JsonValue) :
    ∃ w sink, v.encode = .ok sink.received ∧
      Session Pool.defaultBlockSize [] w sink
        [([v.given none], ⟨.system, (Imports.system.missing v.keys).map some⟩)] [] := by
  obtain ⟨start, fresh⟩ : ∃ w, w = SessionWriter.empty Pool.defaultBlockSize [] := ⟨_, rfl⟩
  have session : Session Pool.defaultBlockSize [] start (.empty none false) [] [] := by
    rw [fresh]
    exact .start rfl
  have formed : Given.WellFormedAll false [v.given none] := itemsFormed [v]
  have plain : ∀ g ∈ [v.given none], g.isTable = false := by simp [givenPlain]
  have written : Given.Written false [v.given none] v.calls := by
    simpa [itemsGiven, itemCalls] using itemsWritten [v]
  have invariant : Session.Invariant .empty [] start [] [] [] := session.invariant (by simp) (by decide)
  obtain ⟨trees, holds⟩ := invariant.holds
  obtain ⟨user, t, more, runs, grown, holds, _, resolved, -⟩ := holds.writes formed written
  have symbols : t = ⟨.system, (Imports.system.missing v.keys).map some⟩ := by
    rw [resolved.texts, callTexts, fresh]
    exact SymbolTable.internedLocals .system v.keys
  have steady := invariant.steady.grown grown user
  obtain ⟨count, ⟨w, sink⟩, flushed⟩ := steady.flushes holds.user []
  have finished := SessionWriter.finishRuns flushed
  refine ⟨w.endSession, sink, ?_, ?_⟩
  · rw [encode, ← fresh, bindRuns (focusRuns (v.writeRuns runs)), Sink.empty, finished]
  · have given := session.values formed plain written
    rw [runs.1] at given
    have sent := given.finish (Reply.flushedIff.mpr finished)
    rwa [symbols] at sent

end JsonValue

/-- Every value survives being written and read, as long as the keys that are no system symbols find
room in the range of symbol IDs. -/
theorem jsonRoundTrip (v : JsonValue) (sound : v.Sound)
    (room : Imports.system.maxId + (Imports.system.missing v.keys).length ≤ Sid.last) :
    ∃ bytes, v.encode = .ok bytes ∧
      -- no byte string is longer than a machine word can say
      (bytes.length < 2 ^ 64 → JsonValue.decode bytes = .ok [v]) := by
  obtain ⟨w, sink, encoded, session⟩ := v.encodes
  have alone : ∀ t ∈ ([] : List SharedTable), t.Importable .empty := by simp
  have invariant := session.invariant alone (by decide)
  obtain ⟨items, shown, last, output⟩ := invariant.sent (by simpa [SymbolTable.maxId] using room)
  refine ⟨sink.received, encoded, fun fits => ?_⟩
  rcases output.begins with ⟨unsent, -⟩ | ⟨-, rest, rfl⟩
  · contradiction
  · rw [output.surfaces.decodes output.encoded fits]
    cases output.readBack with
    | flush read others =>
      cases others
      obtain ⟨tree, more, rfl, same, -, ended⟩ := v.readBack sound read
      cases ended
      simp [same]

theorem nestedJsonRoundTrip :
    let inner : List (String × JsonValue) :=
      [("a", .number (.float (Binary64.zero.withSign true))), ("name", .string "ion")]
    let v : JsonValue :=
      .object
        [("name", .array [.number (.int (-2)), .number (.int 0xFFFFFFFFFFFFFFFF), .null]),
          ("", .object inner), ("b", .number (.int 0)), ("a", .bool true)]
    let bytes : Bytes :=
      [0xE0, 0x01, 0x00, 0xEA, 0xEA, 0x81, 0x83, 0xD7, 0x87, 0xB5, 0x80, 0x81, 0x61, 0x81, 0x62, 0xDE,
        0xA4, 0x84, 0xBC, 0x31, 0x02, 0x28, 0xFF, 0xFF, 0xFF, 0xFF, 0xFF, 0xFF, 0xFF, 0xFF, 0x0F, 0x8A,
        0xDE, 0x8F, 0x8B, 0x48, 0x80, 0x00, 0x00, 0x00, 0x00, 0x00, 0x00, 0x00, 0x84, 0x83, 0x69, 0x6F,
        0x6E, 0x8C, 0x20, 0x8B, 0x11]
    v.Sound ∧ Imports.system.maxId + (Imports.system.missing v.keys).length ≤ Sid.last ∧
      v.encode = .ok bytes ∧ bytes.length < 2 ^ 64 ∧ JsonValue.decode bytes = .ok [v] := by
  intro inner v bytes
  have sound : v.Sound :=
    ⟨by decide, ⟨⟨by decide, by decide⟩, ⟨by decide, by decide⟩, trivial, trivial⟩,
      ⟨by decide, (by decide : (Binary64.zero.withSign true).isFinite = true), trivial, trivial⟩,
      ⟨by decide, by decide⟩, trivial, trivial⟩
  have room : Imports.system.maxId + (Imports.system.missing v.keys).length ≤ Sid.last := by
    decide +kernel
  have fits : bytes.length < 2 ^ 64 := by decide
  obtain ⟨bytes', encoded, decodes⟩ := jsonRoundTrip v sound room
  have known : v.encode = .ok bytes := by decide +kernel
  have same : bytes' = bytes := Except.ok.inj (encoded.symm.trans known)
  subst same
  exact ⟨sound, room, known, fits, decodes fits⟩

end Ion
