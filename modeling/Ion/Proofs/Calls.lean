import Ion.Proofs.Draft
import Ion.SessionWriter

/-! The calls of a writer as data, their replies, and what can be seen of a writer between them. -/
namespace Ion

def Alike (related : σ → τ → Prop) : EStateM.Result IonError σ α → EStateM.Result IonError τ α → Prop
  | .ok a s, .ok b t => a = b ∧ related s t
  | .error e s, .error f t => e = f ∧ related s t
  | _, _ => False

theorem Alike.ends {related : σ → τ → Prop} {r : EStateM.Result IonError σ α}
    {q : EStateM.Result IonError τ α} (alike : Alike related r q) :
    (∃ a s t, r = .ok a s ∧ q = .ok a t ∧ related s t) ∨
      ∃ e s t, r = .error e s ∧ q = .error e t ∧ related s t := by
  cases r with
  | ok a s =>
    cases q with
    | ok b t =>
      obtain ⟨rfl, same⟩ := alike
      exact .inl ⟨a, s, t, rfl, rfl, same⟩
    | error f t => exact alike.elim
  | error e s =>
    cases q with
    | ok b t => exact alike.elim
    | error f t =>
      obtain ⟨rfl, same⟩ := alike
      exact .inr ⟨e, s, t, rfl, rfl, same⟩

def Follows (related : σ → τ → Prop) : Except IonError σ → Except IonError τ → Prop
  | .ok s, .ok t => related s t
  | .error e, .error f => e = f
  | _, _ => False

theorem Follows.ends {related : σ → τ → Prop} {r : Except IonError σ} {q : Except IonError τ}
    (follows : Follows related r q) :
    (∃ s t, r = .ok s ∧ q = .ok t ∧ related s t) ∨ ∃ e, r = .error e ∧ q = .error e := by
  cases r with
  | ok s =>
    cases q with
    | ok t => exact .inl ⟨s, t, rfl, rfl, follows⟩
    | error f => exact follows.elim
  | error e =>
    cases q with
    | ok t => exact follows.elim
    | error f =>
      cases follows
      exact .inr ⟨e, rfl, rfl⟩

def SameSink (related : σ → τ → Prop) (s : σ × Sink) (t : τ × Sink) : Prop :=
  related s.1 t.1 ∧ s.2 = t.2

def Both (related : σ → τ → Prop) (call : EStateM IonError σ α) (call' : EStateM IonError τ α) : Prop :=
  ∀ s t, related s t → Alike related (call s) (call' t)

namespace Both

variable {related : σ → τ → Prop}

theorem pure (a : α) : Both related (Pure.pure a) (Pure.pure a) := fun _ _ same => ⟨rfl, same⟩

theorem bind {call : EStateM IonError σ α} {call' : EStateM IonError τ α}
    {next : α → EStateM IonError σ β} {next' : α → EStateM IonError τ β} (one : Both related call call')
    (two : ∀ a, Both related (next a) (next' a)) : Both related (call >>= next) (call' >>= next') := by
  intro s t same
  simp only [Bind.bind, EStateM.bind]
  rcases (one s t same).ends with ⟨a, s', t', left, right, same'⟩ | ⟨e, s', t', left, right, same'⟩
  · rw [left, right]
    exact two a s' t' same'
  · rw [left, right]
    exact ⟨rfl, same'⟩

theorem fails (e : IonError) : Both (α := α) related (throw e) (throw e) := fun _ _ same => ⟨rfl, same⟩

theorem change {f : σ → σ} {g : τ → τ} (keeps : ∀ {s t}, related s t → related (f s) (g t)) :
    Both related (modify f) (modify g) := fun _ _ same => ⟨rfl, keeps same⟩

theorem reading {next : σ → EStateM IonError σ α} {next' : τ → EStateM IonError τ α}
    (go : ∀ {s t}, related s t → Both related (next s) (next' t)) :
    Both related (get >>= next) (get >>= next') := fun s t same => go same s t same

theorem collect {items : List ι} {call : ι → EStateM IonError σ α} {call' : ι → EStateM IonError τ α}
    (one : ∀ i, Both related (call i) (call' i)) : Both related (items.mapM call) (items.mapM call') := by
  induction items with
  | nil => exact pure []
  | cons i rest ih =>
    rw [List.mapM_cons, List.mapM_cons]
    exact bind (one i) fun first => bind ih fun more => pure (first :: more)

theorem each {items : List ι} {call : ι → EStateM IonError σ Unit} {call' : ι → EStateM IonError τ Unit}
    (one : ∀ i, Both related (call i) (call' i)) : Both related (items.forM call) (items.forM call') := by
  induction items with
  | nil => exact pure ()
  | cons i rest ih => exact bind (one i) fun _ => ih

theorem same {call : EStateM IonError σ α} : Both (· = ·) call call := by
  rintro s t rfl
  cases call s <;> exact ⟨rfl, rfl⟩

theorem focus {part : υ → φ → Prop} {get : σ → υ} {set : υ → σ → σ} {get' : τ → φ} {set' : φ → τ → τ}
    {call : EStateM IonError υ α} {call' : EStateM IonError φ α}
    (gets : ∀ {s t}, related s t → part (get s) (get' t))
    (sets : ∀ {s t u v}, related s t → part u v → related (set u s) (set' v t))
    (one : Both part call call') : Both related (Ion.focus get set call) (Ion.focus get' set' call') := by
  intro s t same
  unfold Ion.focus
  rcases (one (get s) (get' t) (gets same)).ends with
    ⟨a, u, v, left, right, parts⟩ | ⟨e, u, v, left, right, parts⟩
  · rw [left, right]
    exact ⟨rfl, sets same parts⟩
  · rw [left, right]
    exact ⟨rfl, sets same parts⟩

end Both

inductive Reply
  | done
  | failed (e : IonError)
  | flushed (count : Nat) (sink : Sink)
  | flushFailed (e : IonError) (sink : Sink)
  deriving DecidableEq

namespace Reply

def ofCall (call : EStateM IonError σ Unit) (s : σ) : Reply × σ :=
  match call s with
  | .ok _ s => (done, s)
  | .error e s => (failed e, s)

def ofFlush (call : EStateM IonError (σ × Sink) Nat) (sink : Sink) (s : σ) : Reply × σ :=
  match call (s, sink) with
  | .ok n (s, sink) => (flushed n sink, s)
  | .error e (s, sink) => (flushFailed e sink, s)

theorem ofCallAlike {related : σ → τ → Prop} {call : EStateM IonError σ Unit}
    {call' : EStateM IonError τ Unit} {s : σ} {t : τ} (alike : Alike related (call s) (call' t)) :
    (ofCall call s).1 = (ofCall call' t).1 ∧ related (ofCall call s).2 (ofCall call' t).2 := by
  unfold ofCall
  rcases alike.ends with ⟨u, s', t', left, right, same⟩ | ⟨e, s', t', left, right, same⟩
  · rw [left, right]
    exact ⟨rfl, same⟩
  · rw [left, right]
    exact ⟨rfl, same⟩

theorem ofFlushAlike {related : σ → τ → Prop} {call : EStateM IonError (σ × Sink) Nat}
    {call' : EStateM IonError (τ × Sink) Nat} {s : σ} {t : τ} {sink : Sink}
    (alike : Alike (SameSink related) (call (s, sink)) (call' (t, sink))) :
    (ofFlush call sink s).1 = (ofFlush call' sink t).1 ∧
      related (ofFlush call sink s).2 (ofFlush call' sink t).2 := by
  unfold ofFlush
  rcases alike.ends with ⟨n, ⟨s', sink⟩, ⟨t', _⟩, left, right, states, rfl⟩ |
    ⟨e, ⟨s', sink⟩, ⟨t', _⟩, left, right, states, rfl⟩
  · rw [left, right]
    exact ⟨rfl, states⟩
  · rw [left, right]
    exact ⟨rfl, states⟩

theorem flushedIff {call : EStateM IonError (σ × Sink) Nat} {sink after : Sink} {s s' : σ} {count : Nat} :
    ofFlush call sink s = (flushed count after, s') ↔ call (s, sink) = .ok count (s', after) := by
  unfold ofFlush
  split
  · rename_i result
    simp only [result, Prod.mk.injEq, flushed.injEq, EStateM.Result.ok.injEq]
    grind
  · rename_i result
    simp [result]

theorem flushFailedIff {call : EStateM IonError (σ × Sink) Nat} {sink after : Sink} {s s' : σ}
    {e : IonError} :
    ofFlush call sink s = (flushFailed e after, s') ↔ call (s, sink) = .error e (s', after) := by
  unfold ofFlush
  split
  · rename_i result
    simp [result]
  · rename_i result
    simp only [result, Prod.mk.injEq, flushFailed.injEq, EStateM.Result.error.injEq]
    grind

theorem ofCallDone {call : EStateM IonError σ Unit} {s s' : σ} (done : ofCall call s = (.done, s')) :
    call s = .ok () s' := by
  unfold ofCall at done
  split at done
  · rename_i result
    cases done
    exact result
  · cases done

theorem andState {r : Reply × σ} {reply : Reply} (first : r.1 = reply) : r = (reply, r.2) := by
  rw [← first]

end Reply

namespace Calls

variable (step : σ → ρ → Reply × σ)

def after (s : σ) (requests : List ρ) : σ := requests.foldl (fun s request => (step s request).2) s

def trace (view : σ → ω) (s : σ) : List ρ → List (Reply × ω)
  | [] => []
  | request :: rest =>
    let (reply, s) := step s request
    (reply, view s) :: trace view s rest

def replies (s : σ) : List ρ → List Reply
  | [] => []
  | request :: rest =>
    let (reply, s) := step s request
    reply :: replies s rest

def Runs (s : σ) (requests : List ρ) (s' : σ) : Prop :=
  after step s requests = s' ∧ ∀ reply ∈ replies step s requests, reply = .done

variable {step}

theorem Runs.nothing (s : σ) : Runs step s [] s := ⟨rfl, by simp [replies]⟩

theorem Runs.first {s s' s'' : σ} {request : ρ} {rest : List ρ}
    (one : step s request = (.done, s')) (more : Runs step s' rest s'') :
    Runs step s (request :: rest) s'' := by
  refine ⟨?_, ?_⟩
  · simpa [after, one] using more.1
  · simpa [replies, one] using more.2

theorem Runs.one {s s' : σ} {request : ρ} (done : step s request = (.done, s')) :
    Runs step s [request] s' := first done (nothing s')

theorem Runs.begins {s s' : σ} {request : ρ} {rest : List ρ} (runs : Runs step s (request :: rest) s') :
    (step s request).1 = .done ∧ Runs step (step s request).2 rest s' := by
  obtain ⟨ends, done⟩ := runs
  simp only [replies, List.mem_cons, forall_eq_or_imp] at done
  exact ⟨done.1, ends, done.2⟩

theorem Runs.called {s s' : σ} {request : ρ} {rest : List ρ} {call : EStateM IonError σ Unit}
    (runs : Runs step s (request :: rest) s') (made : step s request = Reply.ofCall call s) :
    ∃ middle, call s = .ok () middle ∧ Runs step middle rest s' := by
  obtain ⟨done, more⟩ := runs.begins
  rw [made] at done more
  exact ⟨_, Reply.ofCallDone (Reply.andState done), more⟩

theorem Runs.calledOnce {s s' : σ} {request : ρ} {call : EStateM IonError σ Unit}
    (runs : Runs step s [request] s') (made : step s request = Reply.ofCall call s) :
    call s = .ok () s' := by
  obtain ⟨middle, ok, rfl, -⟩ := runs.called made
  exact ok

theorem Runs.append {s s' s'' : σ} {left right : List ρ} (one : Runs step s left s')
    (two : Runs step s' right s'') : Runs step s (left ++ right) s'' := by
  induction left generalizing s with
  | nil =>
    obtain ⟨rfl, _⟩ := one
    exact two
  | cons request rest ih =>
    obtain ⟨done, more⟩ := one.begins
    exact first (Prod.ext done rfl) (ih more)

theorem Runs.split {s s'' : σ} {left right : List ρ} (runs : Runs step s (left ++ right) s'') :
    ∃ s', Runs step s left s' ∧ Runs step s' right s'' := by
  induction left generalizing s with
  | nil => exact ⟨s, nothing s, runs⟩
  | cons request rest ih =>
    obtain ⟨done, more⟩ := runs.begins
    obtain ⟨s', one, two⟩ := ih more
    exact ⟨s', first (Prod.ext done rfl) one, two⟩

section Alike

variable {R : σ → σ → Prop}
  (steps : ∀ {s t} (request : ρ), R s t →
    (step s request).1 = (step t request).1 ∧ R (step s request).2 (step t request).2)

include steps

theorem afterAlike {s t : σ} (related : R s t) (requests : List ρ) :
    R (after step s requests) (after step t requests) := by
  induction requests generalizing s t with
  | nil => exact related
  | cons request rest ih => exact ih (steps request related).2

theorem traceAlike {view : σ → ω} (views : ∀ {s t}, R s t → view s = view t) {s t : σ}
    (related : R s t) (requests : List ρ) : trace step view s requests = trace step view t requests := by
  induction requests generalizing s t with
  | nil => rfl
  | cons request rest ih =>
    obtain ⟨reply, next⟩ := steps request related
    simp only [trace, reply, views next, ih next]

end Alike

theorem traceLast {view : σ → ω} {s t : σ} {requests : List ρ} {request : ρ}
    (same : trace step view s (requests ++ [request]) = trace step view t (requests ++ [request])) :
    (step (after step s requests) request).1 = (step (after step t requests) request).1 := by
  induction requests generalizing s t with
  | nil => exact (Prod.mk.inj (List.cons.inj same).1).1
  | cons first rest ih => exact ih (List.cons.inj same).2

end Calls

inductive SidRequest
  | setField (sid : Nat)
  | annotate (sid : Nat)
  | setAnnotations (sids : List Nat)
  | clearAnnotations
  | stepIn (type : ValueType)
  | stepOut
  | write (a : Atom)
  | writeVersionMarker
  | checkFlushable
  | flush (sink : Sink)
  | reset
  deriving DecidableEq

def SidWriter.perform (w : SidWriter) : SidRequest → Reply × SidWriter
  | .setField sid => Reply.ofCall (setField sid) w
  | .annotate sid => Reply.ofCall (SidWriter.addAnnotation sid) w
  | .setAnnotations sids => Reply.ofCall (setAnnotations sids) w
  | .clearAnnotations => (.done, w.clearAnnotations)
  | .stepIn type => Reply.ofCall (stepIn type) w
  | .stepOut => Reply.ofCall stepOut w
  | .write a => Reply.ofCall (write a) w
  | .writeVersionMarker => Reply.ofCall writeVersionMarker w
  | .checkFlushable => Reply.ofCall checkFlushable w
  | .flush sink => Reply.ofFlush flush sink w
  | .reset => (.done, w.reset)

def Draft.perform (d : Draft) : SidRequest → Reply × Draft
  | .setField sid => Reply.ofCall (setField sid) d
  | .annotate sid => Reply.ofCall (Draft.addAnnotation sid) d
  | .setAnnotations sids => Reply.ofCall (setAnnotations sids) d
  | .clearAnnotations => (.done, d.clearAnnotations)
  | .stepIn type => Reply.ofCall (stepIn type) d
  | .stepOut => Reply.ofCall stepOut d
  | .write a => Reply.ofCall (write a) d
  | .writeVersionMarker => Reply.ofCall writeVersionMarker d
  | .checkFlushable => Reply.ofCall checkFlushable d
  | .flush sink => Reply.ofFlush flush sink d
  | .reset => (.done, empty)

namespace SidRequest

def call : SidRequest → SidWriter.Call Unit
  | .setField sid => SidWriter.setField sid
  | .annotate sid => SidWriter.addAnnotation sid
  | .setAnnotations sids => SidWriter.setAnnotations sids
  | .clearAnnotations => modify SidWriter.clearAnnotations
  | .stepIn type => SidWriter.stepIn type
  | .stepOut => SidWriter.stepOut
  | .write a => SidWriter.write a
  | .writeVersionMarker => SidWriter.writeVersionMarker
  | .checkFlushable => SidWriter.checkFlushable
  | .flush _ | .reset => throw .poisoned

def script (requests : List SidRequest) : SidWriter.Call Unit := requests.forM call

theorem callDone {w : SidWriter} {request : SidRequest} (kept : request ≠ .reset)
    (done : (w.perform request).1 = .done) : request.call w = .ok () (w.perform request).2 := by
  cases request with
  | setField | annotate | setAnnotations | stepIn | stepOut | write | writeVersionMarker
  | checkFlushable => exact Reply.ofCallDone (Reply.andState done)
  | clearAnnotations => rfl
  | reset => exact absurd rfl kept
  | flush sink =>
    simp only [SidWriter.perform, Reply.ofFlush] at done
    split at done <;> contradiction

end SidRequest

inductive SessionRequest
  | setField (name : String)
  | setFieldToken (token : SymbolToken)
  | annotate (text : String)
  | annotateToken (token : SymbolToken)
  | setAnnotations (texts : List String)
  | clearAnnotations
  | stepIn (type : ValueType)
  | stepOut
  | write (a : Atom)
  | writeSymbol (text : String)
  | writeSymbolToken (token : SymbolToken)
  | flush (sink : Sink)
  | finish (sink : Sink)
  | reset
  deriving DecidableEq

def SessionWriter.perform (w : SessionWriter) : SessionRequest → Reply × SessionWriter
  | .setField name => Reply.ofCall (setField name) w
  | .setFieldToken token => Reply.ofCall (setFieldToken token) w
  | .annotate text => Reply.ofCall (SessionWriter.addAnnotation text) w
  | .annotateToken token => Reply.ofCall (addAnnotationToken token) w
  | .setAnnotations texts => Reply.ofCall (setAnnotations texts) w
  | .clearAnnotations => (.done, w.clearAnnotations)
  | .stepIn type => Reply.ofCall (stepIn type) w
  | .stepOut => Reply.ofCall stepOut w
  | .write a => Reply.ofCall (write a) w
  | .writeSymbol text => Reply.ofCall (writeSymbol text) w
  | .writeSymbolToken token => Reply.ofCall (writeSymbolToken token) w
  | .flush sink => Reply.ofFlush flush sink w
  | .finish sink => Reply.ofFlush finish sink w
  | .reset => (.done, w.reset)

end Ion
