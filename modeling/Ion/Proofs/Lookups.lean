import Mathlib.Data.List.Chain
import Ion.Proofs.Interning
import Ion.Symbol.Index

/-! The indexes of symbol tables against the slots they stand for: a lookup finds the least ID with
the text, across layers that are cut short or padded and across local symbols. -/
namespace Ion

theorem firstPlace [BEq α] [LawfulBEq α] {list : List α} {a : α} {i : Nat} (at_ : list[i]? = some a) :
    ∃ n ≤ i, list.idxOf? a = some n := by
  cases place : list.idxOf? a with
  | none => exact absurd (List.mem_of_getElem? at_) (List.idxOf?_eq_none_iff.mp place)
  | some n =>
    obtain ⟨_, _, least⟩ := List.idxOf?_eq_some_iff.mp place
    obtain ⟨inside, same⟩ := List.getElem?_eq_some_iff.mp at_
    exact ⟨n, Nat.le_of_not_lt fun before => least i before same, rfl⟩

namespace TextIndex

theorem insertedNew (index : Std.HashMap String α) (key : String) (place : α) (text : String) :
    (index.insertIfNew key place)[text]? = index[text]?.or (if key = text then some place else none) := by
  rw [Std.HashMap.getElem?_insertIfNew]
  by_cases same : key = text
  · subst same
    cases here : index[key]? <;> simp [Std.HashMap.mem_iff_isSome_getElem?, here]
  · simp [same]

theorem noted (index : TextIndex) (slot : Option String) (place : Nat) (text : String) :
    (index.note slot place)[text]? =
      index[text]?.or (if slot = some text then some place else none) := by
  cases slot with
  | none => simp [note]
  | some key => simp [note, insertedNew]

theorem notedAll (index : TextIndex) (place : Nat) (slots : List (Option String)) (text : String) :
    (index.noteAll place slots)[text]? =
      index[text]?.or ((slots.idxOf? (some text)).map (place + ·)) := by
  induction slots generalizing index place with
  | nil => simp [noteAll]
  | cons slot rest ih =>
    rw [noteAll, ih, noted, List.idxOf?_cons, Option.or_assoc]
    by_cases same : slot = some text
    · simp [same]
    · cases rest.idxOf? (some text) <;> simp [same, Nat.add_comm, Nat.add_left_comm]

theorem noteAllSnoc (index : TextIndex) (place : Nat) (slots : List (Option String))
    (slot : Option String) :
    index.noteAll place (slots ++ [slot]) =
      (index.noteAll place slots).note slot (place + slots.length) := by
  induction slots generalizing index place with
  | nil => rfl
  | cons head rest ih =>
    rw [List.cons_append, noteAll, ih, noteAll, List.length_cons, Nat.add_right_comm, Nat.add_assoc]

end TextIndex

theorem IndexedTable.placeSame (t : IndexedTable) (text : String) :
    t.place? text = t.position? text := by
  rw [place?, t.indexed, TextIndex.notedAll, SharedTable.position?]
  simp [Nat.add_comm]

theorem SharedTable.textPosition {t : SharedTable} {text : String} {position : Nat}
    (known : t.text? position = some text) :
    1 ≤ position ∧ ∃ n ≤ position, t.position? text = some n := by
  cases position with
  | zero => contradiction
  | succ i =>
    obtain ⟨n, least, place⟩ := firstPlace (Option.join_eq_some_iff.mp known)
    exact ⟨by omega, n + 1, by omega, by rw [position?, place]; rfl⟩

namespace Layer

def range (p : Nat × Layer) : Nat × Nat := (p.1, p.2.length)

def Owns (sid : Nat) (r : Nat × Nat) : Prop := r.1 ≤ sid ∧ sid < r.1 + r.2

structure Partition (ranges : List (Nat × Nat)) (last : Nat) : Prop where
  start : ∀ r ∈ ranges.head?, r.1 = 1
  row : ranges.IsChain fun r s => s.1 = r.1 + r.2
  owner : ∀ sid, (1 ≤ sid ∧ sid ≤ last) ↔ ∃! n : Nat, ∃ r, ranges[n]? = some r ∧ Owns sid r

theorem placeAppend (first : Nat) (a b : List Layer) :
    place first (a ++ b) = place first a ++ place (first + total a) b := by
  induction a generalizing first with
  | nil => rfl
  | cons l rest ih => simp [place, total, ih, Nat.add_assoc]

theorem placeLayers (first : Nat) (layers : List Layer) : (place first layers).map Prod.snd = layers := by
  induction layers generalizing first with
  | nil => rfl
  | cons l rest ih => rw [place, List.map_cons, ih]

def ranges (first : Nat) (layers : List Layer) : List (Nat × Nat) := (place first layers).map range

theorem rangesStart (first : Nat) (layers : List Layer) : ∀ r ∈ (ranges first layers).head?, r.1 = first := by
  cases layers <;> simp [ranges, place, range]

theorem rangesRow (first : Nat) (layers : List Layer) :
    (ranges first layers).IsChain fun r s => s.1 = r.1 + r.2 := by
  induction layers generalizing first with
  | nil => exact .nil
  | cons l rest ih =>
    rw [ranges, place, List.map_cons, List.isChain_cons]
    exact ⟨rangesStart (first + l.length) rest, ih (first + l.length)⟩

section Owners

variable {first sid n m : Nat} {layers : List Layer} {r s : Nat × Nat}

theorem ownedInside (at_ : (ranges first layers)[n]? = some r) (owns : Owns sid r) :
    first ≤ sid ∧ sid < first + total layers := by
  induction layers generalizing first n with
  | nil => simp [ranges, place] at at_
  | cons l rest ih =>
    rw [total]
    cases n with
    | zero =>
      obtain rfl : (first, l.length) = r := Option.some.inj at_
      have : first ≤ sid ∧ sid < first + l.length := owns
      omega
    | succ n =>
      have := @ih (first + l.length) n at_
      omega

theorem ownerExists (inside : first ≤ sid ∧ sid < first + total layers) :
    ∃ n : Nat, ∃ r, (ranges first layers)[n]? = some r ∧ Owns sid r := by
  induction layers generalizing first with
  | nil =>
    rw [total] at inside
    omega
  | cons l rest ih =>
    rw [total] at inside
    by_cases here : sid < first + l.length
    · exact ⟨0, (first, l.length), rfl, inside.1, here⟩
    · obtain ⟨n, r, at_, owns⟩ := @ih (first + l.length) (by omega)
      exact ⟨n + 1, r, at_, owns⟩

theorem ownerUnique (one : (ranges first layers)[n]? = some r ∧ Owns sid r)
    (two : (ranges first layers)[m]? = some s ∧ Owns sid s) : n = m := by
  induction layers generalizing first n m with
  | nil => simp [ranges, place] at one
  | cons l rest ih =>
    -- Behind the first layer every owned ID lies behind its range.
    have apart {k : Nat} {r : Nat × Nat} (later : (ranges (first + l.length) rest)[k]? = some r)
        (owns : Owns sid r) : ¬Owns sid (first, l.length) := fun here => by
      have : sid < first + l.length := here.2
      have := ownedInside later owns
      omega
    cases n with
    | zero =>
      cases m with
      | zero => rfl
      | succ m =>
        obtain rfl : (first, l.length) = r := Option.some.inj one.1
        exact absurd one.2 (apart two.1 two.2)
    | succ n =>
      cases m with
      | zero =>
        obtain rfl : (first, l.length) = s := Option.some.inj two.1
        exact absurd two.2 (apart one.1 one.2)
      | succ m => exact congrArg (· + 1) (@ih (first + l.length) n m one two)

end Owners

theorem rangesPartition (layers : List Layer) : Partition (ranges 1 layers) (total layers) := by
  refine ⟨rangesStart 1 layers, rangesRow 1 layers, fun sid => ⟨fun inside => ?_, ?_⟩⟩
  · obtain ⟨n, r, owner⟩ := @ownerExists 1 sid layers (by omega)
    exact ⟨n, ⟨r, owner⟩, fun m ⟨s, other⟩ => ownerUnique other owner⟩
  · rintro ⟨n, ⟨r, at_, owns⟩, _⟩
    have := ownedInside at_ owns
    omega

end Layer

namespace ImportChain

variable {chain : ImportChain} {sid : Nat} {text : String}

theorem textInside (known : chain.text? sid = some text) : 1 ≤ sid ∧ sid ≤ chain.maxId := by
  induction chain with
  | nothing => contradiction
  | layer below table length ih =>
    rw [text?] at known
    rw [maxId]
    split at known
    · have := ih known
      omega
    · split at known
      · contradiction
      · omega

theorem findText (found : chain.find? text = some sid) : chain.text? sid = some text := by
  induction chain with
  | nothing => contradiction
  | layer below table length ih =>
    rw [find?] at found
    split at found
    · rename_i n lower
      obtain rfl : n = sid := by simpa using found
      have known := ih lower
      rw [text?, if_pos (textInside known).2, known]
    · rw [IndexedTable.placeSame, Option.map_eq_some_iff] at found
      obtain ⟨position, own, rfl⟩ := found
      obtain ⟨place, short⟩ := Option.filter_eq_some_iff.mp own
      obtain ⟨least, known⟩ := SharedTable.positionText place
      rw [decide_eq_true_eq] at short
      rw [text?, if_neg (by omega), if_neg (by omega), Nat.add_sub_cancel_left, known]

theorem textFound (known : chain.text? sid = some text) : ∃ n ≤ sid, chain.find? text = some n := by
  induction chain with
  | nothing => contradiction
  | layer below table length ih =>
    rw [text?] at known
    rw [find?]
    by_cases lower : sid ≤ below.maxId
    · rw [if_pos lower] at known
      obtain ⟨n, least, found⟩ := ih known
      exact ⟨n, least, by rw [found]⟩
    · rw [if_neg lower] at known
      cases earlier : below.find? text with
      | some n =>
        have := (textInside (findText earlier)).2
        exact ⟨n, by omega, rfl⟩
      | none =>
        split at known
        · contradiction
        · obtain ⟨_, position, least, place⟩ := SharedTable.textPosition known
          have short : position ≤ length := by omega
          refine ⟨below.maxId + position, by omega, ?_⟩
          simp [IndexedTable.placeSame, place, Option.filter, short]

theorem layersPlaced (chain : ImportChain) :
    chain.layers = Layer.place 1 (chain.layers.map Prod.snd) ∧
      chain.maxId = Layer.total (chain.layers.map Prod.snd) := by
  induction chain with
  | nothing => exact ⟨rfl, rfl⟩
  | layer below table length ih =>
    obtain ⟨placed, last⟩ := ih
    rw [layers, maxId, List.map_append, Layer.placeAppend, Layer.totalAppend, ← placed, ← last]
    exact ⟨by simp [Layer.place, Nat.add_comm], rfl⟩

theorem partition (chain : ImportChain) : Layer.Partition (chain.layers.map Layer.range) chain.maxId := by
  obtain ⟨placed, last⟩ := chain.layersPlaced
  rw [placed, last]
  exact Layer.rangesPartition (chain.layers.map Prod.snd)

theorem findSame (chain : ImportChain) (text : String) :
    chain.find? text = chain.layers.findSome? fun (first, l) => l.find? text first := by
  induction chain with
  | nothing => rfl
  | layer below table length ih =>
    rw [layers, List.findSome?_append, ← ih, find?]
    cases below.find? text with
    | some n => rfl
    | none =>
      cases place : table.position? text with
      | none => simp [IndexedTable.placeSame, Layer.find?, place]
      | some position =>
        by_cases short : position ≤ length
        · simp [IndexedTable.placeSame, Layer.find?, place, Option.filter, short, Nat.add_right_comm]
        · simp [IndexedTable.placeSame, Layer.find?, place, Option.filter, short]

theorem textSame (chain : ImportChain) (sid : Nat) :
    chain.text? sid = chain.layers.findSome? fun (first, l) => l.text? sid first := by
  induction chain with
  | nothing => rfl
  | layer below table length ih =>
    rw [layers, List.findSome?_append, ← ih, text?]
    split
    · rename_i lower
      have later : (Layer.mk table.toSharedTable length).text? sid (below.maxId + 1) = none :=
        if_neg (by omega)
      simp [later]
    · rename_i behind
      have earlier : below.text? sid = none := by
        cases known : below.text? sid with
        | none => rfl
        | some text => exact absurd (textInside known).2 behind
      rw [earlier, Option.none_or, List.findSome?_singleton]
      change _ = if below.maxId + 1 ≤ sid ∧ sid < below.maxId + 1 + length then
        table.text? (sid + 1 - (below.maxId + 1)) else none
      rw [Nat.add_sub_add_right]
      split
      · rw [if_neg (by omega)]
      · rw [if_pos (by omega)]

theorem layerText {chain : ImportChain} {p : Nat × Layer} (mem : p ∈ chain.layers) {n : Nat}
    (inside : n < p.2.length) :
    p.1 + n ≤ chain.maxId ∧ chain.text? (p.1 + n) = p.2.table.slots[n]?.join := by
  induction chain with
  | nothing => simp [layers] at mem
  | layer below table length ih =>
    rw [maxId, text?]
    rcases List.mem_append.mp mem with lower | own
    · obtain ⟨under, known⟩ := ih lower
      exact ⟨by omega, by rw [if_pos under, known]⟩
    · obtain rfl := List.mem_singleton.mp own
      simp only at inside ⊢
      have place : below.maxId + 1 + n - below.maxId = n + 1 := by omega
      refine ⟨by omega, ?_⟩
      rw [if_neg (by omega), if_neg (by omega), place, SharedTable.text?]

end ImportChain

namespace IndexedSymbols

def perform (t : IndexedSymbols) : SymbolCall → Nat × IndexedSymbols
  | .intern text => t.intern text
  | .push text => t.pushLocal text

def after (t : IndexedSymbols) (calls : List SymbolCall) : IndexedSymbols :=
  calls.foldl (fun t call => (t.perform call).2) t

def answers (t : IndexedSymbols) : List SymbolCall → List Nat
  | [] => []
  | call :: rest => (t.perform call).1 :: answers (t.perform call).2 rest

def Indexed (t : IndexedSymbols) : Prop := t.byText = TextIndex.noteAll ∅ t.firstLocal t.locals

variable {t : IndexedSymbols}

theorem pushIndexed (indexed : t.Indexed) (text : Option String) : (t.pushLocal text).2.Indexed := by
  have next : t.maxId + 1 = t.firstLocal + t.locals.length := by
    unfold maxId firstLocal
    omega
  unfold Indexed at indexed ⊢
  rw [pushLocal, indexed, next]
  exact (TextIndex.noteAllSnoc ∅ t.firstLocal t.locals text).symm

theorem Indexed.find (indexed : t.Indexed) (text : String) :
    t.find? text =
      (t.imports.find? text).or ((t.locals.idxOf? (some text)).map (t.firstLocal + ·)) := by
  rw [find?, indexed, TextIndex.notedAll]
  cases t.imports.find? text <;> simp

theorem ownText (t : IndexedSymbols) (n : Nat) : t.text? (t.firstLocal + n) = t.locals[n]?.join := by
  have own : ¬t.firstLocal + n ≤ t.imports.maxId := by
    unfold firstLocal
    omega
  rw [text?, if_neg own, Nat.add_sub_cancel_left]

theorem importedText {sid : Nat} (imported : sid ≤ t.imports.maxId) :
    t.text? sid = t.imports.text? sid := if_pos imported

theorem placed (t : IndexedSymbols) (sid : Nat) :
    sid ≤ t.imports.maxId ∨ ∃ n, sid = t.firstLocal + n := by
  unfold firstLocal
  by_cases imported : sid ≤ t.imports.maxId
  · exact .inl imported
  · exact .inr ⟨sid - (t.imports.maxId + 1), by omega⟩

theorem Indexed.textFound (indexed : t.Indexed) {text : String} {sid : Nat}
    (known : t.text? sid = some text) : ∃ n ≤ sid, t.find? text = some n := by
  rw [indexed.find]
  rcases t.placed sid with imported | ⟨place, rfl⟩
  · rw [importedText imported] at known
    obtain ⟨n, least, found⟩ := ImportChain.textFound known
    exact ⟨n, least, by rw [found, Option.some_or]⟩
  · rw [ownText] at known
    obtain ⟨n, least, own⟩ := firstPlace (Option.join_eq_some_iff.mp known)
    cases imported : t.imports.find? text with
    | some m =>
      have := (ImportChain.textInside (ImportChain.findText imported)).2
      exact ⟨m, by unfold firstLocal; omega, rfl⟩
    | none => exact ⟨t.firstLocal + n, by omega, by rw [own]; rfl⟩

structure Same (t : IndexedSymbols) (u : SymbolTable) : Prop where
  layers : t.imports.layers = u.imports.placed
  locals : t.locals = u.locals
  indexed : t.Indexed

namespace Same

variable {u : SymbolTable}

theorem maxId (same : t.Same u) : t.maxId = u.maxId ∧ t.firstLocal = u.firstLocal := by
  have last : t.imports.maxId = u.imports.maxId := by
    rw [t.imports.layersPlaced.2, same.layers, Imports.placed, Layer.placeLayers, Imports.maxId]
  unfold IndexedSymbols.maxId IndexedSymbols.firstLocal SymbolTable.maxId SymbolTable.firstLocal
  exact ⟨by rw [last, same.locals], by rw [last]⟩

theorem find (same : t.Same u) (text : String) : t.find? text = u.find? text := by
  rw [same.indexed.find, ImportChain.findSame, same.layers, same.locals, same.maxId.2,
    SymbolTable.find?, Imports.find?]
  cases u.imports.placed.findSome? fun (first, l) => l.find? text first <;> rfl

theorem text (same : t.Same u) (sid : Nat) : t.text? sid = u.text? sid := by
  have first := same.maxId.2
  unfold IndexedSymbols.firstLocal SymbolTable.firstLocal at first
  rw [IndexedSymbols.text?, ImportChain.textSame, same.layers, same.locals, same.maxId.2,
    SymbolTable.text?, Imports.text?, Nat.succ.inj first]

theorem push (same : t.Same u) (text : Option String) :
    (t.pushLocal text).1 = (u.pushLocal text).1 ∧ (t.pushLocal text).2.Same (u.pushLocal text).2 :=
  ⟨congrArg (· + 1) same.maxId.1,
    ⟨same.layers, congrArg (· ++ [text]) same.locals, pushIndexed same.indexed text⟩⟩

theorem perform (same : t.Same u) (call : SymbolCall) :
    (t.perform call).1 = (u.perform call).1 ∧ (t.perform call).2.Same (u.perform call).2 := by
  cases call with
  | push text => exact same.push text
  | intern text =>
    change (t.intern text).1 = (u.intern text).1 ∧ (t.intern text).2.Same (u.intern text).2
    unfold IndexedSymbols.intern SymbolTable.intern
    rw [same.find]
    cases u.find? text with
    | some sid => exact ⟨rfl, same⟩
    | none => exact same.push (some text)

theorem after (same : t.Same u) (calls : List SymbolCall) :
    t.answers calls = u.answers calls ∧ (t.after calls).Same (u.after calls) := by
  induction calls generalizing t u with
  | nil => exact ⟨rfl, same⟩
  | cons call rest ih =>
    obtain ⟨answer, next⟩ := same.perform call
    obtain ⟨more, last⟩ := ih next
    exact ⟨congrArg₂ List.cons answer more, last⟩

end Same

theorem sameImports {chain : ImportChain} {i : Imports} (layers : chain.layers = i.placed) :
    (ofImports chain).Same (.ofImports i) := ⟨layers, rfl, rfl⟩

end IndexedSymbols

end Ion
