import Ion.Symbol.Table

/-! Looking a text up and reading its ID back agree, and a table that grows keeps what its IDs
mean. -/
namespace Ion

theorem SharedTable.positionText {t : SharedTable} {text : String} {position : Nat}
    (found : t.position? text = some position) :
    1 ≤ position ∧ t.text? position = some text := by
  simp only [position?, Option.map_eq_some_iff] at found
  obtain ⟨i, at_, rfl⟩ := found
  obtain ⟨inside, same, _⟩ := List.idxOf?_eq_some_iff.mp at_
  refine ⟨by omega, ?_⟩
  simp [SharedTable.text?, List.getElem?_eq_getElem inside, same]

namespace Layer

theorem findText {l : Layer} {text : String} {first sid : Nat} (found : l.find? text first = some sid) :
    first ≤ sid ∧ sid < first + l.length ∧ l.text? sid first = some text := by
  unfold find? at found
  cases place : l.table.position? text with
  | none => simp [place] at found
  | some position =>
    obtain ⟨least, known⟩ := SharedTable.positionText place
    by_cases short : position ≤ l.length
    · simp only [place, short, if_true, Option.some.injEq] at found
      have back : sid + 1 - first = position := by omega
      have inside : first ≤ sid ∧ sid < first + l.length := by omega
      refine ⟨inside.1, inside.2, ?_⟩
      rw [Layer.text?, if_pos inside, back, known]
    · simp [place, short] at found

theorem textAbove {l : Layer} {first sid : Nat} (above : first + l.length ≤ sid) :
    l.text? sid first = none := if_neg (by omega)

theorem findPlaced {layers : List Layer} {text : String} {first sid : Nat}
    (found : (place first layers).findSome? (fun (first, l) => l.find? text first) = some sid) :
    first ≤ sid ∧ sid < first + total layers ∧
      (place first layers).findSome? (fun (first, l) => l.text? sid first) = some text := by
  induction layers generalizing first with
  | nil => simp [place] at found
  | cons l rest ih =>
    simp only [place, List.findSome?_cons] at found ⊢
    cases here : l.find? text first with
    | some n =>
      simp only [here, Option.some.injEq] at found
      subst found
      obtain ⟨least, below, known⟩ := findText here
      refine ⟨least, ?_, by simp [known]⟩
      rw [total]
      omega
    | none =>
      simp only [here] at found
      obtain ⟨least, below, known⟩ := ih found
      refine ⟨by omega, ?_, ?_⟩
      · rw [total]
        omega
      · rw [textAbove least]
        exact known

theorem lengthInside {l : Layer} {layers : List Layer} (mem : l ∈ layers) :
    l.length ≤ total layers := by
  induction mem with
  | head rest =>
    rw [total]
    omega
  | tail first _ ih =>
    rw [total]
    omega

end Layer

namespace Imports

theorem findText {i : Imports} {text : String} {sid : Nat} (found : i.find? text = some sid) :
    sid ≤ i.maxId ∧ i.text? sid = some text := by
  obtain ⟨least, below, known⟩ := Layer.findPlaced found
  refine ⟨?_, known⟩
  rw [maxId]
  omega

theorem tableName (i : Imports) : i.text? Sid.symbolTable = some "$ion_symbol_table" := rfl

theorem tableInside (i : Imports) : Sid.symbolTable ≤ i.maxId := by
  have system : (Layer.whole .system).length = 9 := rfl
  rw [maxId, layers, Layer.total, system, Sid.symbolTable]
  omega

end Imports

namespace SymbolTable

structure Extends (s t : SymbolTable) : Prop where
  imports : t.imports = s.imports
  locals : s.locals <+: t.locals

namespace Extends

theorem refl (s : SymbolTable) : Extends s s := ⟨rfl, List.prefix_refl s.locals⟩

theorem trans {s t u : SymbolTable} (one : Extends s t) (two : Extends t u) : Extends s u :=
  ⟨two.imports.trans one.imports, one.locals.trans two.locals⟩

theorem textKept {s t : SymbolTable} (grown : Extends s t) {sid : Nat} (inside : sid ≤ s.maxId) :
    t.text? sid = s.text? sid := by
  unfold text? firstLocal
  rw [grown.imports]
  split
  · rfl
  · rename_i own
    obtain ⟨more, same⟩ := grown.locals
    unfold maxId at inside
    rw [← same, List.getElem?_append_left (by omega)]

theorem findKept {s t : SymbolTable} (grown : Extends s t) {text : String} {sid : Nat}
    (found : s.find? text = some sid) : t.find? text = some sid := by
  unfold find? firstLocal at found ⊢
  rw [grown.imports]
  cases imported : s.imports.find? text with
  | some n => simpa only [imported] using found
  | none =>
    simp only [imported, Option.map_eq_some_iff] at found ⊢
    obtain ⟨i, place, rfl⟩ := found
    obtain ⟨inside, same, first⟩ := List.idxOf?_eq_some_iff.mp place
    obtain ⟨more, rest⟩ := grown.locals
    refine ⟨i, ?_, rfl⟩
    rw [← rest]
    refine List.idxOf?_eq_some_iff.mpr ⟨by rw [List.length_append]; omega, ?_, fun j before => ?_⟩
    · rwa [List.getElem_append_left inside]
    · rw [List.getElem_append_left (by omega)]
      exact first j before

theorem maxId {s t : SymbolTable} (grown : Extends s t) : s.maxId ≤ t.maxId := by
  have more := grown.locals.length_le
  unfold SymbolTable.maxId
  rw [grown.imports]
  omega

end Extends

theorem textBound {s : SymbolTable} {sid : Nat} {text : String} (known : s.text? sid = some text) :
    sid ≤ s.maxId := by
  unfold text? firstLocal at known
  unfold maxId
  split at known
  · omega
  · have slot := Option.join_eq_some_iff.mp known
    have inside := (List.getElem?_eq_some_iff.mp slot).1
    omega

theorem Extends.text {s t : SymbolTable} (grown : Extends s t) {sid : Nat} {text : String}
    (known : s.text? sid = some text) : t.text? sid = some text :=
  (grown.textKept (textBound known)).trans known

theorem findText {s : SymbolTable} {text : String} {sid : Nat} (found : s.find? text = some sid) :
    s.text? sid = some text := by
  unfold find? at found
  cases imported : s.imports.find? text with
  | some n =>
    simp only [imported, Option.some.injEq] at found
    subst found
    obtain ⟨inside, known⟩ := Imports.findText imported
    rw [text?, if_pos inside, known]
  | none =>
    simp only [imported, Option.map_eq_some_iff] at found
    obtain ⟨i, place, rfl⟩ := found
    obtain ⟨inside, same, _⟩ := List.idxOf?_eq_some_iff.mp place
    have own : ¬s.firstLocal + i ≤ s.imports.maxId := by
      unfold firstLocal
      omega
    rw [text?, if_neg own, Nat.add_sub_cancel_left, List.getElem?_eq_getElem inside, same]
    rfl

theorem pushedText (s : SymbolTable) (text : String) :
    text? { s with locals := s.locals ++ [some text] } (s.maxId + 1) = some text := by
  have own : ¬s.maxId + 1 ≤ s.imports.maxId := by
    unfold maxId
    omega
  have slot : s.maxId + 1 - (s.imports.maxId + 1) = s.locals.length := by
    unfold maxId
    omega
  rw [text?, if_neg own, firstLocal, slot]
  simp

theorem internText (s : SymbolTable) (text : String) :
    (s.intern text).2.text? (s.intern text).1 = some text ∧ Extends s (s.intern text).2 := by
  cases found : s.find? text with
  | some sid =>
    have same : s.intern text = (sid, s) := by simp only [intern, found]
    rw [same]
    exact ⟨findText found, .refl s⟩
  | none =>
    have pushed : s.intern text = s.pushLocal (some text) := by simp only [intern, found]
    rw [pushed]
    exact ⟨s.pushedText text, rfl, List.prefix_append s.locals [some text]⟩

end SymbolTable

end Ion
