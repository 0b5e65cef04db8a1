import Ion.Proofs.Interning
import Ion.Proofs.Refusals

/-! The symbols of calls that fail. A text gets its ID before the writer below is asked, so a call that is
refused has interned its texts all the same. Apart from them it leaves what every refused call leaves. -/
namespace Ion

namespace SymbolTable

def missing (t : SymbolTable) (texts : List String) : List String :=
  (texts.filter fun text => (t.find? text).isNone).eraseDups

end SymbolTable

theorem Name.resolveAllInterns (t : SymbolTable) (texts : List String) :
    (Name.resolveAll t (texts.map .text)).2 = t.after (texts.map .intern) := by
  induction texts generalizing t with
  | nil => rfl
  | cons text rest ih => exact ih (t.intern text).2

def SymbolToken.interned : SymbolToken → List String
  | ⟨some text, none⟩ => [text]
  | _ => []

namespace SessionRequest

def names : SessionRequest → Bool
  | setField _ | setFieldToken _ | annotate _ | annotateToken _ | setAnnotations _ | writeSymbol _
  | writeSymbolToken _ => true
  | _ => false

def interned (inStruct : Bool) : SessionRequest → List String
  | setField text => if inStruct then [text] else []
  | setFieldToken token | annotateToken token | writeSymbolToken token => token.interned
  | annotate text | writeSymbol text => [text]
  | setAnnotations texts => texts
  | _ => []

end SessionRequest

namespace SessionWriter

variable {w w' : SessionWriter} {e : IonError}

def refused (w : SessionWriter) (e : IonError) (symbols : SymbolTable) : SessionWriter :=
  { w with user := w.user.refused e, symbols }

theorem onUserRefuses {call : SidWriter.Call Unit} (fails : onUser call w = .error e w')
    (refuses : ∀ {u}, call w.user = .error e u → u = w.user.refused e) : w' = w.refused e w.symbols := by
  unfold onUser focus at fails
  cases ran : call w.user with
  | ok _ u =>
    rw [ran] at fails
    contradiction
  | error f u =>
    rw [ran] at fails
    cases fails
    rw [refuses ran]
    rfl

theorem internedRefuses {before : Call α} {a : α} (texts : List String) {call : α → SidWriter.Call Unit}
    (interns : before w = .ok a { w with symbols := w.symbols.after (texts.map .intern) })
    (fails : (before >>= fun a => onUser (call a)) w = .error e w')
    (refuses : ∀ {u}, call a w.user = .error e u → u = w.user.refused e) :
    w' = w.refused e (w.symbols.after (texts.map .intern)) := by
  rw [bindRuns interns] at fails
  exact onUserRefuses (w := { w with symbols := _ }) fails refuses

theorem tokenRefuses {token : SymbolToken} {call : Nat → SidWriter.Call Unit}
    (fails : (resolve token >>= fun sid => onUser (call sid)) w = .error e w')
    (refuses : ∀ {sid u}, call sid w.user = .error e u → u = w.user.refused e) :
    w' = w.refused e (w.symbols.after (token.interned.map .intern)) := by
  obtain ⟨text, sid⟩ := token
  cases sid with
  | some sid => cases text <;> exact internedRefuses [] rfl fails refuses
  | none =>
    cases text with
    | some text => exact internedRefuses [text] rfl fails refuses
    | none =>
      cases fails
      show w = w.refused .emptyToken w.symbols
      rw [refused, SidWriter.refusedPlain _ rfl]

theorem performRefuses {request : SessionRequest} (names : request.names = true)
    (fails : (w.perform request).1.error? = some e) :
    (w.perform request).2 =
      w.refused e (w.symbols.after ((request.interned w.user.inStruct).map .intern)) := by
  cases request with
  | setField text =>
    have failed := Reply.ofCallError fails
    have start : (get : Call SessionWriter) w = .ok w w := rfl
    rw [setField, bindRuns start] at failed
    by_cases inside : w.user.inStruct
    · rw [if_pos inside] at failed
      rw [SessionRequest.interned, if_pos inside]
      exact internedRefuses [text] rfl failed SidWriter.guardedRefuses
    · rw [if_neg inside] at failed
      rw [SessionRequest.interned, if_neg inside]
      exact onUserRefuses failed SidWriter.guardedRefuses
  | setFieldToken token => exact tokenRefuses (Reply.ofCallError fails) SidWriter.guardedRefuses
  | annotate text => exact internedRefuses [text] rfl (Reply.ofCallError fails) SidWriter.guardedRefuses
  | annotateToken token => exact tokenRefuses (Reply.ofCallError fails) SidWriter.guardedRefuses
  | setAnnotations texts =>
    have interns := w.internAllRuns texts
    rw [Name.resolveAllInterns] at interns
    exact internedRefuses texts interns (Reply.ofCallError fails) SidWriter.guardedRefuses
  | writeSymbol text => exact internedRefuses [text] rfl (Reply.ofCallError fails) SidWriter.writeRefuses
  | writeSymbolToken token => exact tokenRefuses (Reply.ofCallError fails) SidWriter.writeRefuses
  | _ => contradiction

end SessionWriter

end Ion
