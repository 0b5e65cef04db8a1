import Ion.Proofs.Displacement

/-! Readers of the same bytes at another place. Only a step to a next value can fail with a place, which
moves along; all other answers are the same. -/
namespace Ion

variable {k : Nat}

namespace Scan

def Plain (act : Scan α) : Prop := ∀ c e c', act c = .error e c' → e.isStructural = false

theorem Plain.bind {first : Scan α} {next : α → Scan β} (one : Plain first) (two : ∀ a, Plain (next a)) :
    Plain (first >>= next) := by
  intro c e c' failed
  rcases bindFailed failed with failed | ⟨a, middle, -, failed⟩
  · exact one c e c' failed
  · exact two a middle e c' failed

theorem donePlain (a : α) : Plain (pure a) := nofun

theorem placePlain : Plain get := nofun

theorem failedPlain {e : IonError} (plain : e.isStructural = false) : Plain (throw e : Scan α) := by
  intro c e' c' failed
  cases failed
  exact plain

theorem liftPlain (act : Read α) : Plain (lift act) := by
  intro c e c' failed
  simp only [lift, EStateM.adaptExcept] at failed
  split at failed <;> cases failed
  rfl

theorem runOnPlain {act : Scan α} (plain : Plain act) {raw : Bytes} {e : IonError}
    (failed : runOn raw act = .error e) : e.isStructural = false := by
  unfold runOn at failed
  split at failed <;> cases failed
  exact plain _ _ _ ‹_›

end Scan

namespace Payload

open Scan

theorem exponentPlain : Plain exponent :=
  (liftPlain Cursor.varInt).bind fun read => by
    obtain ⟨negative, magnitude⟩ := read
    dsimp only
    split
    · exact donePlain _
    · exact failedPlain rfl

theorem coefficientPlain : Plain coefficient :=
  placePlain.bind fun _ => (liftPlain _).bind fun _ => donePlain _

theorem decimalPlain : DecodesPlainly decimal := by
  intro raw e failed
  rw [decimalScanned] at failed
  split at failed
  · contradiction
  · have plain : Plain decimalScan := exponentPlain.bind fun _ => coefficientPlain.bind fun _ => donePlain _
    exact runOnPlain plain failed

theorem offsetPlain : Plain offset :=
  (liftPlain Cursor.varInt).bind fun read => by
    obtain ⟨negative, magnitude⟩ := read
    dsimp only
    split
    · exact donePlain none
    · split
      · exact donePlain _
      · exact failedPlain rfl

theorem numbersPlain (limit : Nat) : Plain (numbers limit) := by
  induction limit with
  | zero => exact donePlain []
  | succ limit ih =>
    refine placePlain.bind fun c => ?_
    split
    · exact donePlain []
    · exact (liftPlain Cursor.varUInt).bind fun n => ih.bind fun rest => donePlain (n :: rest)

theorem fractionOfPlain {exponent coefficient : Int} {e : IonError}
    (failed : fractionOf exponent coefficient = .error e) : e.isStructural = false := by
  unfold fractionOf at failed
  split at failed
  · cases failed
    rfl
  · split at failed
    · split at failed <;> cases failed
      rfl
    · dsimp only at failed
      split at failed
      · cases failed
        rfl
      · split at failed <;> cases failed
        rfl

theorem fractionPlain (precision : Precision) : Plain (fraction precision) := by
  refine placePlain.bind fun c => ?_
  split
  · exact donePlain _
  · refine exponentPlain.bind fun e => coefficientPlain.bind fun c => ?_
    split
    · exact donePlain _
    · exact failedPlain (fractionOfPlain ‹_›)

theorem momentPlain {utc : DateTime} {offset : Option Int} {precision : Precision} {e : IonError}
    (failed : Timestamp.of utc offset precision = .error e) : e.isStructural = false := by
  unfold Timestamp.of at failed
  split at failed <;> cases failed
  rfl

theorem timestampPlain : DecodesPlainly timestamp := by
  intro raw e failed
  have plain : Plain timestampScan := by
    refine offsetPlain.bind fun offset => (liftPlain _).bind fun year => (numbersPlain 5).bind fun fields => ?_
    split
    · refine (fractionPlain _).bind fun found => ?_
      obtain ⟨precision, nano⟩ := found
      dsimp only
      split
      · split
        · exact donePlain _
        · exact failedPlain (momentPlain ‹_›)
      · exact failedPlain rfl
    · exact failedPlain rfl
  exact runOnPlain plain failed

end Payload

theorem mapFailed {first : Except ε α} {f : α → β} {e : ε} (failed : first.map f = .error e) :
    first = .error e := by
  cases first with
  | ok a => contradiction
  | error e' => exact congrArg Except.error (Except.error.inj failed)

theorem Header.scalarPlain {h : Header} {e : IonError} (failed : h.scalar = .error e) :
    e.isStructural = false := by
  unfold Header.scalar at failed
  split at failed
  · contradiction
  · unfold Payload.int at failed
    dsimp only at failed
    split at failed <;> cases failed
    rfl
  · have failed := mapFailed failed
    unfold Payload.float at failed
    split at failed <;> cases failed
    rfl
  · exact Payload.decimalPlain _ _ (mapFailed failed)
  · exact Payload.timestampPlain _ _ (mapFailed failed)
  · exact Payload.textPlain _ _ (mapFailed failed)
  · cases failed
    rfl

namespace Reader

def Placeless (e : IonError) : Prop := ∀ k, e.moved k = e

variable {r : Reader}

theorem headerPlaceless {expected : Expectation} {e : IonError} (refused : r.header expected = .error e) :
    Placeless e := by
  unfold header at refused
  split at refused
  · cases refused
    exact fun _ => rfl
  · split at refused
    · split at refused <;> cases refused
      exact fun _ => rfl
    · cases refused
      exact fun _ => rfl

theorem decodedPlaceless {type : ValueType} {e : IonError} (refused : r.decoded type = .error e) :
    Placeless e := by
  unfold decoded at refused
  split at refused
  · cases refused
    exact headerPlaceless ‹_›
  · split at refused
    · contradiction
    · exact fun _ => IonError.movedPlain (Header.scalarPlain (mapFailed refused))

theorem gettingPlaceless (answer : α → Answer) (type : ValueType) (get : Variant → Option α) {e : IonError}
    (placeless : Placeless e) (found : ∀ a, (answer a).moved k = answer a) (r : Reader) :
    (answered answer (getting type get e) r).moved k = answered answer (getting type get e) r := by
  simp only [answered, gettingRuns]
  cases asked : r.decoded type with
  | error e => exact congrArg Answer.failed (decodedPlaceless asked k)
  | ok scalar =>
    dsimp only
    cases get scalar with
    | none => exact congrArg Answer.failed (placeless k)
    | some a => exact found a

theorem replyPlaceless {query : Query} (standing : query.Standing) (r : Reader) :
    (r.reply query).moved k = r.reply query := by
  cases query with
  | call request =>
    cases request with
    | next => exact absurd rfl standing.noNext
    | stepIn =>
      simp only [reply, answered, stepIn]
      cases r.current? with
      | none => rfl
      | some h =>
        dsimp only
        cases h.type.container? <;> cases h.isNull <;> rfl
    | stepOut =>
      simp only [reply, answered, stepOut]
      cases r.inside <;> rfl
    | integerSize =>
      simp only [reply, answered, integerSizeRuns]
      by_cases integer : r.currentType? = some .int ∧ r.currentIsNull = false
      · simp only [if_pos integer]
        cases asked : r.decoded .int with
        | error e => exact congrArg Answer.failed (decodedPlaceless asked k)
        | ok => rfl
      · simp only [if_neg integer]
        rfl
    | bool | int | long | integer | double | decimal | timestamp | string =>
      exact gettingPlaceless _ _ _ (fun _ => rfl) (fun _ => rfl) r
  | symbol =>
    simp only [reply, symbol]
    cases asked : r.header (.type .symbol) with
    | error e => exact congrArg Answer.failed (headerPlaceless asked k)
    | ok h =>
      cases said : Payload.symbol h.payload with
      | error e =>
        simp only [bind, Except.bind, said]
        exact congrArg Answer.failed (IonError.movedPlain (Payload.symbolPlain _ _ said))
      | ok sid =>
        simp only [bind, Except.bind, said]
        rfl
  | lob | lobSize =>
    simp only [reply, lob, lobSize]
    cases asked : r.header .lob with
    | error e => exact congrArg Answer.failed (headerPlaceless asked k)
    | ok h => rfl
  | depth | phase | type | isNull | fieldName | fieldToken | annotations => rfl

theorem movedLike (r : Reader) : Like (fun _ => false) r (r.moved k) := by
  refine ⟨List.length_map _, ?_, fun _ _ => rfl⟩
  change r.position.Alike (r.position.moved k)
  cases r.position with
  | before => exact .before
  | on h decoded => exact .on h.movedAlike decoded
  | exhausted => exact .exhausted

theorem aheadMoved (r : Reader) : (r.moved k).ahead? = r.ahead?.map (Cursor.moved k) := by
  unfold ahead? moved
  cases r.position with
  | before | exhausted => rfl
  | on h decoded => exact congrArg some h.afterMoved

theorem entranceMoved (r : Reader) :
    (r.moved k).entrance? = r.entrance?.map fun (e, body) => (e.moved k, body.moved k) := by
  unfold entrance? current? moved
  cases r.position with
  | before | exhausted => rfl
  | on h decoded =>
    have same : (h.moved k).container? = h.container? := rfl
    simp only [Position.moved, Option.bind_some, same, h.afterMoved, h.bodyMoved]
    cases h.container? <;> rfl

theorem leavesMoved (query : Query) (position : Position) :
    query.leaves (position.moved k) = (query.leaves position).moved k := by
  unfold Query.leaves
  cases query.decodes? with
  | none => rfl
  | some type =>
    cases position with
    | before | exhausted => rfl
    | on h decoded =>
      cases decoded with
      | some => rfl
      | none =>
        have alike : h.Alike (h.moved k) := h.movedAlike
        simp only [Position.moved, Position.keeping, alike.type, alike.isNull, alike.scalar]

theorem askMoved (r : Reader) (query : Query) :
    (r.moved k).ask query = ((r.ask query).1.moved k, (r.ask query).2.moved k) := by
  obtain rfl | standing := query.nextOrStanding
  · cases ahead : r.ahead? with
    | none =>
      have ahead' : (r.moved k).ahead? = none := by rw [aheadMoved, ahead]; rfl
      rw [askNextEnded ahead, askNextEnded ahead']
      rfl
    | some c =>
      have ahead' : (r.moved k).ahead? = some (c.moved k) := by rw [aheadMoved, ahead]; rfl
      cases inside : r.inside with
      | nil =>
        have inside' : (r.moved k).inside = [] := by rw [moved, inside]; rfl
        rw [askNextTop inside ahead, askNextTop inside' ahead']
        dsimp only
        have same : nextTop (r.moved k).catalog (r.moved k).symbols (c.moved k) = _ :=
          nextTopMoved r.catalog r.symbols c
        rw [same]
        cases nextTop r.catalog r.symbols c with
        | mk symbols step => cases step <;> rfl
      | cons e outer =>
        have inside' : (r.moved k).inside = e.moved k :: outer.map (Entered.moved k) := by
          rw [moved, inside]
          rfl
        have same : nextChild (e.moved k).container (c.moved k) = _ := nextChildMoved e.container c
        rw [askNextWithin inside ahead, askNextWithin inside' ahead', same]
        cases nextChild e.container c <;> rfl
  · have answer : ((r.moved k).ask query).1 = (r.ask query).1.moved k := by
      rw [r.movedLike.answerSame standing, askAnswer, replyPlaceless standing]
    refine Prod.ext answer ?_
    cases standing with
    | stepIn =>
      rw [askStepIn, askStepIn, entranceMoved]
      cases r.entrance? <;> rfl
    | stepOut =>
      have inside' : (r.moved k).inside = r.inside.map (Entered.moved k) := rfl
      rw [askStepOut, askStepOut, inside']
      cases r.inside <;> rfl
    | still still =>
      rw [askStill still, askStill still]
      simp only [moved, leavesMoved]

open Dialogue

theorem answersMoved (r : Reader) (queries : List Query) :
    answers ask (r.moved k) queries = (answers ask r queries).map (Answer.moved k) :=
  answerTogether (fun s t => t = s.moved k) (Answer.moved k) rfl (alongAll (fun _ _ => trivial) r queries)
    fun {s t query} same _ => by
      subst same
      rw [askMoved]
      exact ⟨rfl, rfl⟩

end Reader

end Ion
