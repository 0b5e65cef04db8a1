import Mathlib.Data.List.Induction
import Mathlib.Data.List.Nodup
import Ion.Proofs.Symbols

/-! Runs of calls on a symbol table: IDs keep their texts, texts keep their IDs, and texts without an
imported ID are numbered in order of first use. -/
namespace Ion

inductive SymbolCall
  | intern (text : String)
  | push (text : Option String)
  deriving DecidableEq

namespace SymbolTable

def perform (t : SymbolTable) : SymbolCall → Nat × SymbolTable
  | .intern text => t.intern text
  | .push text => t.pushLocal text

def after (t : SymbolTable) (calls : List SymbolCall) : SymbolTable :=
  calls.foldl (fun t call => (t.perform call).2) t

def answers (t : SymbolTable) : List SymbolCall → List Nat
  | [] => []
  | call :: rest => (t.perform call).1 :: answers (t.perform call).2 rest

theorem performExtends (t : SymbolTable) (call : SymbolCall) : Extends t (t.perform call).2 := by
  cases call with
  | intern text => exact (t.internText text).2
  | push text => exact ⟨rfl, List.prefix_append t.locals [text]⟩

theorem afterExtends (t : SymbolTable) (calls : List SymbolCall) : Extends t (t.after calls) := by
  induction calls generalizing t with
  | nil => exact .refl t
  | cons call rest ih => exact (t.performExtends call).trans (ih (t.perform call).2)

theorem internFound {t : SymbolTable} {text : String} {sid : Nat} (found : t.find? text = some sid) :
    t.intern text = (sid, t) := by
  simp only [intern, found]

theorem internFinds (t : SymbolTable) (text : String) :
    (t.intern text).2.find? text = some (t.intern text).1 := by
  cases found : t.find? text with
  | some sid => rw [internFound found, found]
  | none =>
    cases imported : t.imports.find? text with
    | some sid => simp [find?, imported] at found
    | none =>
      have absent : some text ∉ t.locals := by simpa [find?, imported] using found
      have place : (t.locals ++ [some text]).idxOf? (some text) = some t.locals.length := by
        refine List.idxOf?_eq_some_iff.mpr ⟨by simp, by simp, fun j before same => absent ?_⟩
        rw [List.getElem_append_left before] at same
        exact same ▸ List.getElem_mem before
      have pushed : t.intern text = t.pushLocal (some text) := by simp only [intern, found]
      simp only [pushed, pushLocal, find?, imported, place, Option.map_some, firstLocal, maxId,
        Option.some.injEq]
      omega

theorem answersKept (t : SymbolTable) (texts : List String) :
    (t.answers (texts.map .intern)).map some = texts.map (t.after (texts.map .intern)).find? := by
  induction texts generalizing t with
  | nil => rfl
  | cons text rest ih =>
    have here := (afterExtends (t.intern text).2 (rest.map .intern)).findKept (t.internFinds text)
    simp only [List.map_cons, answers, perform]
    rw [ih (t.intern text).2]
    exact congrArg (· :: _) here.symm

end SymbolTable

def Imports.missing (i : Imports) (texts : List String) : List String :=
  (texts.filter fun text => (i.find? text).isNone).eraseDups

namespace Imports

variable {i : Imports} {texts : List String} {text : String}

theorem missingMem : text ∈ i.missing texts ↔ text ∈ texts ∧ i.find? text = none := by
  simp [missing, List.mem_eraseDups]

theorem missingKnown (known : i.find? text ≠ none ∨ text ∈ i.missing texts) :
    i.missing (texts ++ [text]) = i.missing texts := by
  rw [missing, List.filter_append, List.eraseDups_append]
  refine (congrArg _ ?_).trans (List.append_nil (i.missing texts))
  rcases known with imported | before
  · simp [imported]
  · obtain ⟨used, absent⟩ := missingMem.mp before
    simp [List.removeAll, absent, used]

theorem missingNew (absent : i.find? text = none) (unused : text ∉ i.missing texts) :
    i.missing (texts ++ [text]) = i.missing texts ++ [text] := by
  have unseen : text ∉ texts := fun seen => unused (missingMem.mpr ⟨seen, absent⟩)
  rw [missing, List.filter_append, List.eraseDups_append, missing, List.append_right_inj]
  simp [List.removeAll, absent, unseen, List.eraseDups_cons]

theorem missingOnce (i : Imports) (texts : List String) : (i.missing texts).Nodup := by
  induction texts using List.reverseRecOn with
  | nil => simp [missing]
  | append_singleton texts text ih =>
    by_cases known : i.find? text ≠ none ∨ text ∈ i.missing texts
    · rwa [missingKnown known]
    · rw [not_or, not_not] at known
      rw [missingNew known.1 known.2, List.nodup_append]
      refine ⟨ih, List.nodup_singleton text, fun before mem last end_ same => known.2 ?_⟩
      rw [← List.mem_singleton.mp end_, ← same]
      exact mem

end Imports

namespace SymbolTable

variable (i : Imports) (texts : List String)

theorem internedLocals :
    (ofImports i).after (texts.map .intern) = ⟨i, (i.missing texts).map some⟩ := by
  induction texts using List.reverseRecOn with
  | nil => rfl
  | append_singleton texts text ih =>
    have step : (ofImports i).after ((texts ++ [text]).map .intern) =
        (intern ⟨i, (i.missing texts).map some⟩ text).2 := by
      rw [← ih]
      simp [after, perform]
    rw [step]
    cases found : find? ⟨i, (i.missing texts).map some⟩ text with
    | some sid =>
      have known : i.find? text ≠ none ∨ text ∈ i.missing texts := by
        cases imported : i.find? text with
        | some n => exact .inl (Option.some_ne_none n)
        | none =>
          rw [find?, imported] at found
          obtain ⟨n, place, _⟩ := Option.map_eq_some_iff.mp found
          obtain ⟨inside, same, _⟩ := List.idxOf?_eq_some_iff.mp place
          have mem := List.mem_of_getElem same
          exact .inr (by simpa using mem)
      rw [internFound found, Imports.missingKnown known]
    | none =>
      have absent : i.find? text = none := by
        cases imported : i.find? text with
        | none => rfl
        | some sid => simp [find?, imported] at found
      have unused : text ∉ i.missing texts := by simpa [find?, absent] using found
      simp [intern, found, pushLocal, Imports.missingNew absent unused]

theorem missingFound {n : Nat} {text : String} (at_ : (i.missing texts)[n]? = some text) :
    find? ⟨i, (i.missing texts).map some⟩ text = some (i.maxId + 1 + n) := by
  obtain ⟨inside, same⟩ := List.getElem?_eq_some_iff.mp at_
  have absent : i.find? text = none := (Imports.missingMem.mp (List.mem_of_getElem? at_)).2
  have place : ((i.missing texts).map some).idxOf? (some text) = some n := by
    refine List.idxOf?_eq_some_iff.mpr ⟨by simpa using inside, by simpa using same,
      fun j before again => ?_⟩
    have twice : (i.missing texts)[j] = (i.missing texts)[n] := by simpa [same] using again
    exact (Nat.ne_of_lt before) ((i.missingOnce texts).getElem_inj_iff.mp twice)
  simp [find?, absent, place, firstLocal]

end SymbolTable

end Ion
