import Ion.Proofs.Queries

/-! Going into a container and back again. No call that is made inside a container changes the containers
around it or the symbols, so a reader that comes back goes on as if it had never gone in. -/
namespace Ion

namespace Reader

structure Below (r : Reader) (around : List Entered) (s : Reader) : Prop where
  catalog : s.catalog = r.catalog
  symbols : s.symbols = r.symbols
  inside : around <:+ s.inside

structure Shifted (r s : Reader) : Prop where
  catalog : s.catalog = r.catalog
  symbols : s.symbols = r.symbols
  inside : s.inside = r.inside ∨ (∃ e, s.inside = e :: r.inside) ∨ ∃ e, e :: s.inside = r.inside

variable {r s : Reader}

theorem Shifted.refl (r : Reader) : r.Shifted r := ⟨rfl, rfl, .inl rfl⟩

theorem askShifts {e : Entered} {outer : List Entered} (inside : r.inside = e :: outer) (query : Query) :
    r.Shifted (r.ask query).2 := by
  obtain rfl | standing := query.nextOrStanding
  · obtain ⟨position, left⟩ := askNextStays inside
    rw [left]
    exact ⟨rfl, rfl, .inl rfl⟩
  cases standing with
  | stepIn =>
    rw [askStepIn]
    cases r.entrance? with
    | none => exact .refl r
    | some entrance => exact ⟨rfl, rfl, .inr (.inl ⟨_, rfl⟩)⟩
  | stepOut =>
    rw [askStepOut, inside]
    exact ⟨rfl, rfl, .inr (.inr ⟨e, inside.symm⟩)⟩
  | still still =>
    rw [askStill still]
    exact ⟨rfl, rfl, .inl rfl⟩

theorem Below.ask {around : List Entered} (below : r.Below around s) (nonempty : around ≠ []) {query : Query}
    (deep : around.length ≤ (s.ask query).2.depth) : r.Below around (s.ask query).2 := by
  cases inside : s.inside with
  | nil =>
    have nothing := List.suffix_nil.mp (inside ▸ below.inside)
    exact absurd nothing nonempty
  | cons e outer =>
    have shifted := askShifts inside query
    refine ⟨shifted.catalog.trans below.catalog, shifted.symbols.trans below.symbols, ?_⟩
    rcases shifted.inside with same | ⟨new, entered⟩ | ⟨old, left⟩
    · rw [same]
      exact below.inside
    · rw [entered]
      exact below.inside.trans (List.suffix_cons new s.inside)
    · have suffix := below.inside
      rw [← left, List.suffix_cons_iff] at suffix
      rcases suffix with whole | rest
      · -- all of them would be left
        rw [whole, List.length_cons, Reader.depth] at deep
        omega
      · exact rest

end Reader

open Reader Dialogue

theorem Reader.returnsBehind {r : Reader} {h : Header} {kind : Container} (current : r.current? = some h)
    (holds : h.container? = some kind) {inner : List Query}
    (deep : Along ask (fun s query => r.depth < (s.ask query).2.depth) r (.call .stepIn :: inner))
    (back : (after ask r (.call .stepIn :: inner ++ [.call .stepOut])).depth = r.depth) :
    after ask r (.call .stepIn :: inner ++ [.call .stepOut]) = { r with position := .before h.after } := by
  let around : List Entered := ⟨kind, h.after⟩ :: r.inside
  have entrance : r.entrance? = some (⟨kind, h.after⟩, h.body) := by simp [entrance?, current, holds]
  have entered : r.Below around (r.ask (.call .stepIn)).2 := by
    rw [askStepIn, entrance]
    exact ⟨rfl, rfl, List.suffix_rfl⟩
  -- along the calls made inside, these containers stay
  have below : r.Below around (after ask r (.call .stepIn :: inner)) :=
    invariant (r.Below around) entered deep.2 fun below deep => below.ask (List.cons_ne_nil _ _) deep
  rw [afterAppend] at back ⊢
  generalize after ask r (.call .stepIn :: inner) = last at below back ⊢
  change (last.ask (.call .stepOut)).2.depth = r.depth at back
  change (last.ask (.call .stepOut)).2 = _
  obtain ⟨front, inside⟩ := below.inside
  have innermost : front = [] := by
    cases front with
    | nil => rfl
    | cons e rest =>
      have left : (last.ask (.call .stepOut)).2.inside = rest ++ around := by
        rw [askStepOut, ← inside]
        rfl
      rw [Reader.depth, Reader.depth, left, List.length_append, List.length_cons] at back
      omega
  rw [innermost, List.nil_append] at inside
  rw [askStepOut, ← inside, below.catalog, below.symbols]

/-- Skipping a container is the same as visiting it: after any calls inside it, whatever they come upon,
the next step gives what it would have given without them and leaves the same reader. -/
theorem visitsLeaveNoTrace {r : Reader} {h : Header} {kind : Container} (current : r.current? = some h)
    (holds : h.container? = some kind) {inner : List Query}
    (deep : Along ask (fun s query => r.depth < (s.ask query).2.depth) r (.call .stepIn :: inner))
    (back : (after ask r (.call .stepIn :: inner ++ [.call .stepOut])).depth = r.depth) :
    next (after ask r (.call .stepIn :: inner ++ [.call .stepOut])) = next r := by
  obtain ⟨decoded, stands⟩ := currentAt current
  rw [returnsBehind current holds deep back]
  simp only [next, stands, advance]
  rfl

theorem visitsComeUponFailure :
    let data : Bytes := [0xE0, 0x01, 0x00, 0xEA, 0xB5, 0x21, 0x01, 0xB2, 0x8E, 0x01, 0x21, 0x07]
    let h : Header := ⟨0xB5, .list, none, [], ⟨5, 12, [0x21, 0x01, 0xB2, 0x8E, 0x01, 0x21, 0x07]⟩, 5⟩
    let r := (Reader.between .empty .system (.ofBytes data)).perform .next
    let inner : List Query := [.call .next, .call .int, .call .next, .call .stepIn, .call .next,
      .call .stepIn, .call .stepOut, .annotations, .call .next]
    r.current? = some h ∧ h.container? = some .list ∧
      Along ask (fun s query => r.depth < (s.ask query).2.depth) r (.call .stepIn :: inner) ∧
        (after ask r (.call .stepIn :: inner ++ [.call .stepOut])).depth = r.depth ∧
          .failed (.lengthMismatch 8) ∈ answers ask r (.call .stepIn :: inner) ∧
            next (after ask r (.call .stepIn :: inner ++ [.call .stepOut])) = next r := by
  intro data h r inner
  have current : r.current? = some h := by decide +kernel
  have holds : h.container? = some .list := by decide
  have deep : Along ask (fun s query => r.depth < (s.ask query).2.depth) r (.call .stepIn :: inner) := by
    simp only [Along, inner]
    decide +kernel
  have back : (after ask r (.call .stepIn :: inner ++ [.call .stepOut])).depth = r.depth := by
    decide +kernel
  have failed : .failed (.lengthMismatch 8) ∈ answers ask r (.call .stepIn :: inner) := by decide +kernel
  exact ⟨current, holds, deep, back, failed, visitsLeaveNoTrace current holds deep back⟩

end Ion
