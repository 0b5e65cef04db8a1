import Ion.Proofs.Calls

/-! The calls that write given trees, in any of the orders a writer takes them, and what they do to
a draft. -/
namespace Ion

structure Pending (ν : Type) where
  field : Option ν
  annotations : List ν

def Pending.nothing : Pending ν := ⟨none, []⟩

namespace SidRequest

def announce (member : Bool) (p : Pending Nat) : SidRequest → Option (Pending Nat)
  | .setField sid => if member then some { p with field := some sid } else none
  | .annotate sid =>
    if p.annotations.length < SidWriter.annotationLimit then
      some { p with annotations := p.annotations ++ [sid] }
    else none
  | .setAnnotations sids =>
    if sids.length ≤ SidWriter.annotationLimit then some { p with annotations := sids } else none
  | .clearAnnotations => some { p with annotations := [] }
  | _ => none

def announced (member : Bool) (requests : List SidRequest) : Option (Pending Nat) :=
  requests.foldlM (announce member) .nothing

end SidRequest

inductive Tree.Written : Bool → List Tree → List SidRequest → Prop
  | nothing {member} : Written member [] []
  | atom {member field sids a rest before after}
      (announced : SidRequest.announced member before = some ⟨field, sids⟩)
      (more : Written member rest after) :
      Written member (.atom field sids a :: rest) (before ++ .write a :: after)
  | container {member field sids kind children rest before calls after}
      (announced : SidRequest.announced member before = some ⟨field, sids⟩)
      (inner : Written (kind == .struct) children calls) (more : Written member rest after) :
      Written member (.container field sids kind children :: rest)
        (before ++ .stepIn kind.type :: (calls ++ .stepOut :: after))

theorem Atom.WellFormed.encodes {a : Atom} (formed : a.WellFormed) :
    ∃ data, a.encode? = .ok data := by
  cases a with
  | decimal d =>
    simp only [encode?, Wire.decimal?, if_neg formed]
    split <;> exact ⟨_, rfl⟩
  | null | bool | int | float | timestamp | symbol | string | clob | blob => exact ⟨_, rfl⟩

theorem SidRequest.announcesNoReset {member : Bool} {p q : Pending Nat} {requests : List SidRequest}
    (announced : requests.foldlM (announce member) p = some q) : reset ∉ requests := by
  induction requests generalizing p with
  | nil => exact List.not_mem_nil
  | cons request rest ih =>
    rw [List.foldlM_cons] at announced
    obtain ⟨middle, one, more⟩ := Option.bind_eq_some_iff.mp announced
    rw [List.mem_cons, not_or]
    refine ⟨?_, ih more⟩
    rintro rfl
    contradiction

theorem Tree.Written.noReset {member : Bool} {trees : List Tree} {requests : List SidRequest}
    (written : Written member trees requests) : SidRequest.reset ∉ requests := by
  induction written with
  | nothing => exact List.not_mem_nil
  | atom announced more ih =>
    have first := SidRequest.announcesNoReset announced
    simp [first, ih]
  | container announced inner more innerIh moreIh =>
    have first := SidRequest.announcesNoReset announced
    simp [first, innerIh, moreIh]

theorem Tree.Written.append {member : Bool} {left right : List Tree} {calls calls' : List SidRequest}
    (one : Written member left calls) (two : Written member right calls') :
    Written member (left ++ right) (calls ++ calls') := by
  induction one with
  | nothing => exact two
  | atom announced more ih =>
    rw [List.append_assoc]
    exact .atom announced (ih two)
  | container announced inner more _ ih =>
    have after := Written.container announced inner (ih two)
    simpa using after

theorem Tree.Named.announces {member : Bool} {field : Option Nat} {sids : List Nat}
    (named : Named member field sids) :
    ∃ before, SidRequest.announced member before = some ⟨field, sids⟩ := by
  have few := named.few
  have presence := named.named
  cases field with
  | none =>
    refine ⟨[.setAnnotations sids], ?_⟩
    simp [SidRequest.announced, SidRequest.announce, Pending.nothing, few]
  | some sid =>
    have inside : member = true := presence.symm
    refine ⟨[.setField sid, .setAnnotations sids], ?_⟩
    simp [SidRequest.announced, SidRequest.announce, Pending.nothing, few, inside]

theorem Tree.writable (trees : List Tree) {member : Bool} (formed : WellFormedAll member trees) :
    ∃ calls, Written member trees calls := by
  match trees with
  | [] => exact ⟨[], .nothing⟩
  | .atom field sids a :: rest =>
    obtain ⟨before, announced⟩ := formed.1.1.announces
    obtain ⟨after, more⟩ := writable rest formed.2
    exact ⟨_, .atom announced more⟩
  | .container field sids kind children :: rest =>
    obtain ⟨before, announced⟩ := formed.1.1.announces
    obtain ⟨calls, inner⟩ := writable children formed.1.2
    obtain ⟨after, more⟩ := writable rest formed.2
    exact ⟨_, .container announced inner more⟩

namespace Tree

mutual

def Accepted (member : Bool) : Tree → Prop
  | atom field _ a => field.isSome = member ∧ ∃ data, a.encode? = .ok data
  | container field _ kind children => field.isSome = member ∧ AcceptedAll (kind == .struct) children

def AcceptedAll (member : Bool) : List Tree → Prop
  | [] => True
  | t :: rest => t.Accepted member ∧ AcceptedAll member rest

end

theorem acceptedAll (trees : List Tree) {member : Bool} (formed : WellFormedAll member trees) :
    AcceptedAll member trees := by
  match trees with
  | [] => trivial
  | .atom field sids a :: rest =>
    exact ⟨⟨formed.1.1.named, formed.1.2.encodes⟩, acceptedAll rest formed.2⟩
  | .container field sids kind children :: rest =>
    exact ⟨⟨formed.1.1.named, acceptedAll children formed.1.2⟩, acceptedAll rest formed.2⟩

end Tree

namespace Draft

structure Ready (d : Draft) : Prop where
  field : d.field = none
  annotations : d.annotations = []
  healthy : d.poisoned = false

theorem addRest (d : Draft) (t : Tree) :
    (d.add t).field = d.field ∧ (d.add t).annotations = d.annotations ∧
      (d.add t).poisoned = d.poisoned := by
  unfold add
  split <;> exact ⟨rfl, rfl, rfl⟩

theorem Ready.add {d : Draft} (ready : d.Ready) (t : Tree) : (d.add t).Ready := by
  obtain ⟨field, annotations, poisoned⟩ := d.addRest t
  exact ⟨field.trans ready.field, annotations.trans ready.annotations, poisoned.trans ready.healthy⟩

theorem addInStruct (d : Draft) (t : Tree) : (d.add t).inStruct = d.inStruct := by
  unfold add inStruct
  cases d.inside <;> rfl

theorem addInside {items : List Item} {o : OpenContainer} {rest : List OpenContainer}
    {field : Option Nat} {annotations : List Nat} {poisoned : Bool} (trees : List Tree) :
    trees.foldl add ⟨items, o :: rest, field, annotations, poisoned⟩ =
      ⟨items, { o with children := o.children ++ trees } :: rest, field, annotations, poisoned⟩ := by
  induction trees generalizing o with
  | nil => simp
  | cons t more ih => simp [add, ih]

theorem addOutside {items : List Item} {field : Option Nat} {annotations : List Nat}
    {poisoned : Bool} (trees : List Tree) :
    trees.foldl add ⟨items, [], field, annotations, poisoned⟩ =
      ⟨items ++ trees.map .value, [], field, annotations, poisoned⟩ := by
  induction trees generalizing items with
  | nil => simp
  | cons t more ih => simp [add, ih]

theorem startsValue {d : Draft} {next : Draft → Draft} (named : d.field.isSome = d.inStruct) :
    d.startValue next = .ok (next d) := by
  refine if_neg ?_
  rintro ⟨inStruct, missing⟩
  rw [missing, inStruct] at named
  contradiction

theorem announces {d : Draft} (healthy : d.poisoned = false) {request : SidRequest}
    {p : Pending Nat}
    (announced : request.announce d.inStruct ⟨d.field, d.annotations⟩ = some p) :
    d.perform request = (.done, { d with field := p.field, annotations := p.annotations }) := by
  cases request with
  | setField sid =>
    simp only [SidRequest.announce] at announced
    split at announced
    · rename_i inStruct
      cases announced
      simp [perform, Reply.ofCall, setField, guarded, healthy, inStruct]
    · contradiction
  | annotate sid =>
    simp only [SidRequest.announce] at announced
    split at announced
    · rename_i room
      cases announced
      simp [perform, Reply.ofCall, addAnnotation, guarded, healthy, room]
    · contradiction
  | setAnnotations sids =>
    simp only [SidRequest.announce] at announced
    split at announced
    · rename_i room
      cases announced
      simp [perform, Reply.ofCall, setAnnotations, guarded, healthy, room]
    · contradiction
  | clearAnnotations =>
    cases announced
    rfl
  | stepIn | stepOut | write | writeVersionMarker | checkFlushable | flush | reset => contradiction

theorem runsAnnounced {items : List Item} {inside : List OpenContainer} {member : Bool}
    {requests : List SidRequest} {p q : Pending Nat}
    (same : inStruct ⟨items, inside, none, [], false⟩ = member)
    (announced : requests.foldlM (SidRequest.announce member) p = some q) :
    Calls.Runs perform ⟨items, inside, p.field, p.annotations, false⟩ requests
      ⟨items, inside, q.field, q.annotations, false⟩ := by
  induction requests generalizing p with
  | nil =>
    cases announced
    exact .nothing _
  | cons request rest ih =>
    rw [List.foldlM_cons] at announced
    obtain ⟨middle, one, more⟩ := Option.bind_eq_some_iff.mp announced
    subst same
    have step := @announces ⟨items, inside, p.field, p.annotations, false⟩ rfl request middle one
    exact .first step (ih more)

theorem runsWritten {member : Bool} {trees : List Tree} {requests : List SidRequest}
    (written : Tree.Written member trees requests) {d : Draft} (ready : d.Ready)
    (same : d.inStruct = member) (accepted : Tree.AcceptedAll member trees) :
    Calls.Runs perform d requests (trees.foldl add d) := by
  induction written generalizing d with
  | nothing => exact .nothing d
  | @atom member field sids a rest before after announced more ih =>
    obtain ⟨⟨named, data, encoded⟩, others⟩ := accepted
    have later := ih (ready.add (.atom field sids a)) ((addInStruct d _).trans same) others
    obtain ⟨items, inside, pending, waiting, poisoned⟩ := d
    obtain ⟨rfl, rfl, rfl⟩ := ready
    have first := runsAnnounced same announced
    have allowed : (Draft.mk items inside field sids false).field.isSome =
        (Draft.mk items inside field sids false).inStruct := named.trans same.symm
    have step : perform ⟨items, inside, field, sids, false⟩ (.write a) =
        (.done, add ⟨items, inside, none, [], false⟩ (.atom field sids a)) := by
      simp only [perform, Reply.ofCall, write, encoded, guarded, startsValue allowed]
      rfl
    exact first.append (.first step later)
  | @container member field sids kind children rest before calls after announced inner more innerIh
      moreIh =>
    obtain ⟨⟨named, within⟩, others⟩ := accepted
    have later := moreIh (ready.add (.container field sids kind children))
      ((addInStruct d _).trans same) others
    obtain ⟨items, inside, pending, waiting, poisoned⟩ := d
    obtain ⟨rfl, rfl, rfl⟩ := ready
    have first := runsAnnounced same announced
    have allowed : (Draft.mk items inside field sids false).field.isSome =
        (Draft.mk items inside field sids false).inStruct := named.trans same.symm
    have enter : perform ⟨items, inside, field, sids, false⟩ (.stepIn kind.type) =
        (.done, ⟨items, ⟨field, sids, kind, []⟩ :: inside, none, [], false⟩) := by
      simp only [perform, Reply.ofCall, stepIn, guarded, kind.containerType, startsValue allowed]
      rfl
    have body := @innerIh ⟨items, ⟨field, sids, kind, []⟩ :: inside, none, [], false⟩
      ⟨rfl, rfl, rfl⟩ rfl within
    rw [addInside] at body
    have leave : perform ⟨items, ⟨field, sids, kind, children⟩ :: inside, none, [], false⟩ .stepOut =
        (.done, add ⟨items, inside, none, [], false⟩ (.container field sids kind children)) := rfl
    exact first.append (.first enter (body.append (.first leave later)))

end Draft

end Ion
