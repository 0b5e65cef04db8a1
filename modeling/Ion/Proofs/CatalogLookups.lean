import Mathlib.Data.List.Induction
import Mathlib.Data.List.Sort
import Ion.Symbol.Index

/-! Lookups in a catalog after any tables were put into it, with an index of names and without. What is
kept of a name is told by the tables put under it, and the lookups by what is kept. -/
namespace Ion

def lastPut? (puts : List SharedTable) (name : String) (version : Nat) : Option SharedTable :=
  (puts.filter fun t => t.name = name ∧ t.version = version).getLast?

def greatestPut? (puts : List SharedTable) (name : String) : Option Nat :=
  ((puts.filter fun t => t.name = name).map SharedTable.version).max?

section LastPut

variable {puts : List SharedTable} {name : String} {version : Nat} {t : SharedTable}

theorem lastPutSnoc (puts : List SharedTable) (t : SharedTable) (name : String) (version : Nat) :
    lastPut? (puts ++ [t]) name version =
      if t.name = name ∧ t.version = version then some t else lastPut? puts name version := by
  unfold lastPut?
  rw [List.filter_append]
  by_cases keyed : t.name = name ∧ t.version = version <;> simp [keyed]

theorem lastPutKeyed (last : lastPut? puts name version = some t) :
    t ∈ puts ∧ t.name = name ∧ t.version = version := by
  have mem := List.mem_of_getLast? last
  simpa using mem

theorem lastPutExists (mem : t ∈ puts) : ∃ u, lastPut? puts t.name t.version = some u := by
  have here : t ∈ puts.filter fun u => u.name = t.name ∧ u.version = t.version := by simpa using mem
  exact ⟨_, List.getLast?_eq_some_getLast (List.ne_nil_of_mem here)⟩

theorem greatestPutIff {greatest : Nat} : greatestPut? puts name = some greatest ↔
    (∃ t ∈ puts, t.name = name ∧ t.version = greatest) ∧
      ∀ t ∈ puts, t.name = name → t.version ≤ greatest := by
  rw [greatestPut?, List.max?_eq_some_iff]
  simp only [List.mem_map, List.mem_filter, decide_eq_true_eq, and_assoc, forall_exists_index, and_imp]
  refine and_congr_right fun _ => ⟨fun bound t mem named => bound _ t mem named rfl, ?_⟩
  rintro bound _ t mem named rfl
  exact bound t mem named

theorem greatestPutLast {greatest : Nat} (found : greatestPut? puts name = some greatest) :
    ∃ t, lastPut? puts name greatest = some t := by
  obtain ⟨⟨t, mem, rfl, rfl⟩, -⟩ := greatestPutIff.mp found
  exact lastPutExists mem

theorem greatestPutNone : greatestPut? puts name = none ↔ ∀ t ∈ puts, t.name ≠ name := by
  simp [greatestPut?]

end LastPut

structure Kept (puts : List SharedTable) (name : String) (tables : List SharedTable) : Prop where
  apart : tables.Pairwise fun a b => a.version ≠ b.version
  members t : t ∈ tables ↔ lastPut? puts name t.version = some t

structure Ranked (puts : List SharedTable) (name : String) (tables : List SharedTable) : Prop
    extends Kept puts name tables where
  ordered : tables.Pairwise fun a b => a.version ≤ b.version

namespace Kept

variable {puts tables others : List SharedTable} {name : String}

theorem nothing (name : String) : Kept [] name [] := ⟨.nil, by simp [lastPut?]⟩

theorem rearranged (kept : Kept puts name tables) (perm : others.Perm tables) : Kept puts name others :=
  ⟨kept.apart.perm perm.symm fun different => different.symm, fun t => perm.mem_iff.trans (kept.members t)⟩

theorem elsewhere (kept : Kept puts name tables) {t : SharedTable} (other : t.name ≠ name) :
    Kept (puts ++ [t]) name tables := by
  refine ⟨kept.apart, fun u => ?_⟩
  rw [lastPutSnoc, if_neg fun keyed => other keyed.1]
  exact kept.members u

theorem replaced {t : SharedTable} (kept : Kept puts t.name tables) :
    Kept (puts ++ [t]) t.name (t :: tables.filter fun u => u.version != t.version) := by
  refine ⟨List.pairwise_cons.mpr ⟨fun u mem => ?_, kept.apart.filter _⟩, fun u => ?_⟩
  · exact (by simpa using (List.mem_filter.mp mem).2 : u.version ≠ t.version).symm
  · rw [lastPutSnoc, List.mem_cons, List.mem_filter, kept.members]
    by_cases same : t.version = u.version
    · simp [same, eq_comm]
    · have other : u ≠ t := fun equal => same (equal ▸ rfl)
      simp [same, other, Ne.symm same]

theorem find (kept : Kept puts name tables) (version : Nat) :
    (tables.find? fun t => t.version == version) = lastPut? puts name version := by
  cases found : tables.find? fun t => t.version == version with
  | some t =>
    have same : t.version = version := by simpa using List.find?_some found
    rw [← same]
    exact ((kept.members t).mp (List.mem_of_find?_eq_some found)).symm
  | none =>
    cases last : lastPut? puts name version with
    | none => rfl
    | some t =>
      have same := (lastPutKeyed last).2.2
      have mem := (kept.members t).mpr (same ▸ last)
      have passed := List.find?_eq_none.mp found t mem
      simp [same] at passed

theorem among (kept : Kept puts name tables) {t : SharedTable} (mem : t ∈ puts) (named : t.name = name) :
    ∃ u ∈ tables, u.version = t.version := by
  obtain ⟨u, last⟩ := lastPutExists mem
  have same := (lastPutKeyed last).2.2
  rw [named, ← same] at last
  exact ⟨u, (kept.members u).mpr last, same⟩

end Kept

namespace Ranked

variable {puts tables others : List SharedTable} {name : String}

theorem increasing (ranked : Ranked puts name tables) : tables.Pairwise fun a b => a.version < b.version :=
  (ranked.ordered.and ranked.apart).imp fun both => Nat.lt_of_le_of_ne both.1 both.2

theorem last (ranked : Ranked puts name tables) :
    tables.getLast? = (greatestPut? puts name).bind (lastPut? puts name) := by
  cases end_ : tables.getLast? with
  | none =>
    have nothing : greatestPut? puts name = none := by
      refine greatestPutNone.mpr fun t mem named => ?_
      obtain ⟨u, kept, -⟩ := ranked.among mem named
      rw [List.getLast?_eq_none_iff.mp end_] at kept
      contradiction
    rw [nothing]
    rfl
  | some t =>
    obtain ⟨front, rfl⟩ := List.getLast?_eq_some_iff.mp end_
    have last := (ranked.members t).mp (List.mem_of_getLast? end_)
    have greatest : greatestPut? puts name = some t.version := by
      obtain ⟨mem, named, -⟩ := lastPutKeyed last
      refine greatestPutIff.mpr ⟨⟨t, mem, named, rfl⟩, fun u mem named => ?_⟩
      obtain ⟨v, inside, same⟩ := ranked.among mem named
      rw [← same]
      rcases List.mem_append.mp inside with before | here
      · exact (List.pairwise_append.mp ranked.ordered).2.2 v before t (List.mem_singleton_self t)
      · rw [List.mem_singleton.mp here]
    rw [greatest]
    exact last.symm

theorem unique (ranked : Ranked puts name tables) (ranked' : Ranked puts name others) : tables = others := by
  have once {list : List SharedTable} (kept : Kept puts name list) : list.Nodup :=
    kept.apart.imp fun different same => different (congrArg SharedTable.version same)
  have perm : tables.Perm others :=
    (List.perm_ext_iff_of_nodup (once ranked.toKept) (once ranked'.toKept)).mpr fun t =>
      (ranked.members t).trans (ranked'.members t).symm
  refine perm.eq_of_pairwise (fun a b _ _ less more => ?_) ranked.increasing ranked'.increasing
  omega

end Ranked

namespace Catalog

theorem insertPerm (t : SharedTable) (tables : List SharedTable) :
    (insertByVersion t tables).Perm (t :: tables) := by
  induction tables with
  | nil => exact .refl _
  | cons u rest ih =>
    unfold insertByVersion
    split
    · exact .refl _
    · exact (ih.cons u).trans (.swap t u rest)

theorem insertOrdered (t : SharedTable) {tables : List SharedTable}
    (ordered : tables.Pairwise fun a b => a.version ≤ b.version) :
    (insertByVersion t tables).Pairwise fun a b => a.version ≤ b.version := by
  induction tables with
  | nil => exact List.pairwise_singleton _ t
  | cons u rest ih =>
    obtain ⟨least, later⟩ := List.pairwise_cons.mp ordered
    unfold insertByVersion
    split
    · rename_i before
      refine List.pairwise_cons.mpr ⟨fun v mem => ?_, ordered⟩
      rcases List.mem_cons.mp mem with rfl | behind
      · exact Nat.le_of_lt before
      · exact Nat.le_trans (Nat.le_of_lt before) (least v behind)
    · rename_i behind
      refine List.pairwise_cons.mpr ⟨fun v mem => ?_, ih later⟩
      rcases List.mem_cons.mp ((insertPerm t rest).mem_iff.mp mem) with rfl | old
      · omega
      · exact least v old

theorem putOrdered {c : Catalog} (ordered : c.tables.Pairwise fun a b => a.version ≤ b.version)
    (t : SharedTable) : (c.put t).tables.Pairwise fun a b => a.version ≤ b.version :=
  insertOrdered t (ordered.filter _)

theorem putVersions (c : Catalog) (t : SharedTable) (name : String) :
    ((c.put t).versions name).Perm
      (if t.name = name then t :: (c.versions name).filter fun u => u.version != t.version
        else c.versions name) := by
  have perm := (insertPerm t (c.tables.filter fun u => !(u.name == t.name && u.version == t.version))).filter
    fun u => u.name == name
  refine perm.trans (.of_eq ?_)
  rw [List.filter_cons, List.filter_filter]
  by_cases here : t.name = name
  · subst here
    simp only [beq_self_eq_true, if_true, versions, List.filter_filter]
    congr 1
    refine List.filter_congr fun u _ => ?_
    cases u.name == t.name <;> simp [bne]
  · simp only [beq_iff_eq, here, if_false, versions]
    refine List.filter_congr fun u _ => ?_
    by_cases same : u.name = name
    · have other : name ≠ t.name := Ne.symm here
      simp [same, other]
    · simp [same]

theorem ordered (puts : List SharedTable) :
    (ofTables puts).tables.Pairwise fun a b => a.version ≤ b.version := by
  induction puts using List.reverseRecOn with
  | nil => exact .nil
  | append_singleton puts t ih =>
    rw [ofTables, List.foldl_concat]
    exact putOrdered ih t

theorem ranked (puts : List SharedTable) (name : String) :
    Ranked puts name ((ofTables puts).versions name) := by
  refine ⟨?_, (ordered puts).filter _⟩
  induction puts using List.reverseRecOn with
  | nil => exact .nothing name
  | append_singleton puts t ih =>
    have perm := (ofTables puts).putVersions t name
    rw [ofTables, List.foldl_concat]
    by_cases here : t.name = name
    · subst here
      rw [if_pos rfl] at perm
      exact ih.replaced.rearranged perm
    · rw [if_neg here] at perm
      exact (ih.elsewhere here).rearranged perm

end Catalog

namespace IndexedCatalog

theorem putVersions (c : IndexedCatalog) (t : SharedTable) (name : String) :
    (c.put t).versions name =
      if t.name = name then
        ((c.versions name).filter (fun u => u.version != t.version) ++ [t]).mergeSort
          fun a b => a.version ≤ b.version
      else c.versions name := by
  simp only [put, versions, Std.HashMap.getElem?_insert, beq_iff_eq]
  by_cases here : t.name = name
  · subst here
    simp
  · simp [here]

theorem ranked (puts : List SharedTable) (name : String) :
    Ranked puts name ((ofTables puts).versions name) := by
  induction puts using List.reverseRecOn with
  | nil =>
    have fresh : (ofTables []).versions name = [] := by simp [ofTables, empty, versions]
    rw [fresh]
    exact ⟨.nothing name, .nil⟩
  | append_singleton puts t ih =>
    rw [ofTables, List.foldl_concat, putVersions]
    by_cases here : t.name = name
    · subst here
      rw [if_pos rfl]
      refine ⟨ih.replaced.rearranged ?_, ?_⟩
      · exact (List.mergeSort_perm _ _).trans List.perm_append_comm
      · have sorted := @List.pairwise_mergeSort _ (fun a b : SharedTable => a.version ≤ b.version)
          (by simpa using fun a b c => Nat.le_trans) (by simpa using fun a b => Nat.le_total _ _)
        simpa using sorted _
    · rw [if_neg here]
      exact ⟨ih.elsewhere here, ih.ordered⟩

theorem versionFound (c : IndexedCatalog) (name : String) (version : Nat) :
    c.version? name version = (c.versions name).find? fun t => t.version == version := by
  unfold version? versions
  cases c.byName[name]? <;> rfl

theorem getFound (c : IndexedCatalog) (name : String) (version : Nat) :
    c.get? name version =
      match (c.versions name).find? fun t => t.version == version with
      | some t => some t
      | none => (c.versions name).getLast? := by
  unfold get?
  rw [versionFound]
  unfold versions
  cases c.byName[name]? <;> rfl

end IndexedCatalog

/-- Whatever was put: the version asked for is the last one put of it, otherwise the last one put of the
greatest version is taken, and no name has two tables of one version or versions out of order. -/
theorem lookupsFollowPuts (puts : List SharedTable) (name : String) (version : Nat) :
    let c := Catalog.ofTables puts
    let indexed := IndexedCatalog.ofTables puts
    c.version? name version = lastPut? puts name version ∧
      c.get? name version =
        (lastPut? puts name version).or ((greatestPut? puts name).bind (lastPut? puts name)) ∧
      (c.get? name version = none ↔ ∀ t ∈ puts, t.name ≠ name) ∧
      (c.versions name).Pairwise (fun a b => a.version < b.version) ∧
      indexed.versions name = c.versions name ∧
      indexed.version? name version = c.version? name version ∧
      indexed.get? name version = c.get? name version := by
  intro c indexed
  have ranked := Catalog.ranked puts name
  have same : indexed.versions name = c.versions name := (IndexedCatalog.ranked puts name).unique ranked
  have exact_ : c.version? name version = lastPut? puts name version := ranked.find version
  have got : c.get? name version =
      (lastPut? puts name version).or ((greatestPut? puts name).bind (lastPut? puts name)) := by
    rw [Catalog.get?, exact_, ranked.last]
    cases lastPut? puts name version <;> rfl
  refine ⟨exact_, got, ?_, ranked.increasing, same, ?_, ?_⟩
  · rw [got, Option.or_eq_none_iff, ← greatestPutNone]
    constructor
    · rintro ⟨-, missing⟩
      cases greatest : greatestPut? puts name with
      | none => rfl
      | some version =>
        obtain ⟨t, last⟩ := greatestPutLast greatest
        rw [greatest, Option.bind_some, last] at missing
        contradiction
    · intro nothing
      refine ⟨?_, by rw [nothing, Option.bind_none]⟩
      cases last : lastPut? puts name version with
      | none => rfl
      | some t =>
        obtain ⟨mem, named, -⟩ := lastPutKeyed last
        exact absurd named (greatestPutNone.mp nothing t mem)
  · rw [indexed.versionFound, same]
    rfl
  · rw [indexed.getFound, same]
    rfl

-- Version 2 was never put, and version 3 was put twice.
example :
    (Catalog.ofTables [.ofTexts "t" 3 ["c"], .ofTexts "t" 1 ["a"], .ofTexts "t" 3 ["d"]]).get? "t" 2 =
      some (.ofTexts "t" 3 ["d"]) := by decide

end Ion
