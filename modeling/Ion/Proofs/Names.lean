import Ion.Proofs.Reading
import Ion.Proofs.Symbols
import Ion.Proofs.Writing

/-! Values whose names, annotations and symbols are given by text or by ID, the calls that write
them, and the IDs that the symbols of a session put in their place. -/
namespace Ion

inductive Name
  | text (text : String)
  | sid (sid : Nat)
  deriving DecidableEq

def SymbolToken.name? : SymbolToken → Option Name
  | ⟨some text, none⟩ => some (.text text)
  | ⟨none, some sid⟩ => some (.sid sid)
  | _ => none

inductive Given
  | atom (field : Option Name) (annotations : List Name) (a : Atom)
  | symbol (field : Option Name) (annotations : List Name) (name : Name)
  | container (field : Option Name) (annotations : List Name) (kind : Container)
      (children : List Given)

namespace Pending

def name (member : Bool) (p : Pending ν) (name : ν) : Option (Pending ν) :=
  if member then some { p with field := some name } else none

def annotate (p : Pending ν) (names : List ν) : Option (Pending ν) :=
  if names.length ≤ SidWriter.annotationLimit then some { p with annotations := names } else none

end Pending

namespace SessionRequest

def announce (member : Bool) (p : Pending Name) : SessionRequest → Option (Pending Name)
  | .setField text => p.name member (.text text)
  | .setFieldToken token => token.name?.bind (p.name member)
  | .annotate text => p.annotate (p.annotations ++ [.text text])
  | .annotateToken token => token.name?.bind fun name => p.annotate (p.annotations ++ [name])
  | .setAnnotations texts => p.annotate (texts.map .text)
  | .clearAnnotations => some { p with annotations := [] }
  | _ => none

def announced (member : Bool) (requests : List SessionRequest) : Option (Pending Name) :=
  requests.foldlM (announce member) .nothing

inductive WritesSymbol : SessionRequest → Name → Prop
  | text {text} : WritesSymbol (.writeSymbol text) (.text text)
  | token {token name} (given : token.name? = some name) : WritesSymbol (.writeSymbolToken token) name

end SessionRequest

inductive Given.Written : Bool → List Given → List SessionRequest → Prop
  | nothing {member} : Written member [] []
  | atom {member field names a rest before after}
      (announced : SessionRequest.announced member before = some ⟨field, names⟩)
      (more : Written member rest after) :
      Written member (.atom field names a :: rest) (before ++ .write a :: after)
  | symbol {member field names name request rest before after}
      (announced : SessionRequest.announced member before = some ⟨field, names⟩)
      (writes : request.WritesSymbol name) (more : Written member rest after) :
      Written member (.symbol field names name :: rest) (before ++ request :: after)
  | container {member field names kind children rest before calls after}
      (announced : SessionRequest.announced member before = some ⟨field, names⟩)
      (inner : Written (kind == .struct) children calls) (more : Written member rest after) :
      Written member (.container field names kind children :: rest)
        (before ++ .stepIn kind.type :: (calls ++ .stepOut :: after))

namespace Name

def resolve (t : SymbolTable) : Name → Nat × SymbolTable
  | text s => t.intern s
  | sid n => (n, t)

def ReadAs : Name → SymbolToken → Prop
  | text s, token => token.text = some s
  | sid n, token => token.sid = some n

def AllRead (t : SymbolTable) (names : List Name) (sids : List Nat) : Prop :=
  names.length = sids.length ∧ ∀ pair ∈ names.zip sids, pair.1.ReadAs (t.token pair.2)

end Name

structure Pending.Read (t : SymbolTable) (given : Pending Name) (shown : Pending Nat) : Prop where
  field : Name.AllRead t given.field.toList shown.field.toList
  annotations : Name.AllRead t given.annotations shown.annotations

inductive Given.Read (t : SymbolTable) : List Given → List Tree → Prop
  | nothing : Read t [] []
  | atom {field names a rest field' sids rest'}
      (labels : Pending.Read t ⟨field, names⟩ ⟨field', sids⟩) (more : Read t rest rest') :
      Read t (.atom field names a :: rest) (.atom field' sids a :: rest')
  | symbol {field names name rest field' sids sid rest'}
      (labels : Pending.Read t ⟨field, names⟩ ⟨field', sids⟩) (same : name.ReadAs (t.token sid))
      (more : Read t rest rest') :
      Read t (.symbol field names name :: rest) (.atom field' sids (.symbol sid) :: rest')
  | container {field names kind children rest field' sids children' rest'}
      (labels : Pending.Read t ⟨field, names⟩ ⟨field', sids⟩) (inner : Read t children children')
      (more : Read t rest rest') :
      Read t (.container field names kind children :: rest)
        (.container field' sids kind children' :: rest')

namespace Name

variable {t u : SymbolTable}

theorem allReadNothing : AllRead t [] [] := ⟨rfl, by simp⟩

theorem allReadOne {name : Name} {sid : Nat} (read : name.ReadAs (t.token sid)) :
    AllRead t [name] [sid] := ⟨rfl, by simpa using read⟩

theorem AllRead.append {names more : List Name} {sids more' : List Nat} (one : AllRead t names sids)
    (two : AllRead t more more') : AllRead t (names ++ more) (sids ++ more') := by
  refine ⟨by rw [List.length_append, List.length_append, one.1, two.1], fun pair mem => ?_⟩
  rw [List.zip_append one.1, List.mem_append] at mem
  rcases mem with first | second
  · exact one.2 pair first
  · exact two.2 pair second

theorem resolveRead (t : SymbolTable) (name : Name) :
    t.Extends (name.resolve t).2 ∧
      ∀ {u}, (name.resolve t).2.Extends u → name.ReadAs (u.token (name.resolve t).1) := by
  cases name with
  | sid n => exact ⟨.refl t, fun _ => rfl⟩
  | text s =>
    obtain ⟨known, grown⟩ := t.internText s
    exact ⟨grown, fun later => later.text known⟩

def resolveAll (t : SymbolTable) : List Name → List Nat × SymbolTable
  | [] => ([], t)
  | name :: rest =>
    let (first, t) := name.resolve t
    let (more, t) := resolveAll t rest
    (first :: more, t)

theorem resolveAllRead (t : SymbolTable) (names : List Name) :
    t.Extends (resolveAll t names).2 ∧
      ∀ {u}, (resolveAll t names).2.Extends u → AllRead u names (resolveAll t names).1 := by
  induction names generalizing t with
  | nil => exact ⟨.refl t, fun _ => allReadNothing⟩
  | cons name rest ih =>
    obtain ⟨grown, first⟩ := name.resolveRead t
    obtain ⟨more, others⟩ := ih (name.resolve t).2
    refine ⟨grown.trans more, fun later => ?_⟩
    exact (allReadOne (first (more.trans later))).append (others later)

end Name

theorem Pending.readNothing {t : SymbolTable} : Pending.Read t .nothing .nothing :=
  ⟨Name.allReadNothing, Name.allReadNothing⟩

namespace SessionRequest

def naming (t : SymbolTable) (request : Nat → SidRequest) (name : Name) : SidRequest × SymbolTable :=
  (request (name.resolve t).1, (name.resolve t).2)

def resolve (t : SymbolTable) : SessionRequest → Option (SidRequest × SymbolTable)
  | .setField text => some (naming t .setField (.text text))
  | .setFieldToken token => token.name?.map (naming t .setField)
  | .annotate text => some (naming t .annotate (.text text))
  | .annotateToken token => token.name?.map (naming t .annotate)
  | .setAnnotations texts =>
    let (sids, t) := Name.resolveAll t (texts.map .text)
    some (.setAnnotations sids, t)
  | .clearAnnotations => some (.clearAnnotations, t)
  | .stepIn type => some (.stepIn type, t)
  | .stepOut => some (.stepOut, t)
  | .write a => some (.write a, t)
  | .writeSymbol text => some (naming t (fun sid => .write (.symbol sid)) (.text text))
  | .writeSymbolToken token => token.name?.map (naming t fun sid => .write (.symbol sid))
  | .flush _ | .finish _ | .reset => none

theorem resolveKept {request : SessionRequest} {call : SidRequest} {t t' : SymbolTable}
    (resolved : request.resolve t = some (call, t')) : call ≠ .reset := by
  rintro rfl
  cases request <;> simp [resolve, naming] at resolved

inductive Resolves : SymbolTable → List SessionRequest → List SidRequest → SymbolTable → Prop
  | nothing {t} : Resolves t [] [] t
  | first {t t' t'' request call rest calls} (one : request.resolve t = some (call, t'))
      (more : Resolves t' rest calls t'') : Resolves t (request :: rest) (call :: calls) t''

theorem Resolves.append {t t' t'' : SymbolTable} {left right : List SessionRequest}
    {calls calls' : List SidRequest} (one : Resolves t left calls t')
    (two : Resolves t' right calls' t'') : Resolves t (left ++ right) (calls ++ calls') t'' := by
  induction one with
  | nothing => exact two
  | first resolved more ih => exact .first resolved (ih two)

variable {t : SymbolTable} {member : Bool} {given given' : Pending Name} {shown : Pending Nat}

theorem nameResolves {name : Name} (named : given.name member name = some given')
    (read : ∀ {u : SymbolTable}, t.Extends u → Pending.Read u given shown) :
    ∃ shown', SidRequest.announce member shown (naming t .setField name).1 = some shown' ∧
      ∀ {u}, (name.resolve t).2.Extends u → Pending.Read u given' shown' := by
  unfold Pending.name at named
  split at named
  · rename_i inside
    cases named
    obtain ⟨grown, same⟩ := name.resolveRead t
    refine ⟨{ shown with field := some (name.resolve t).1 }, if_pos inside, fun later => ?_⟩
    exact ⟨Name.allReadOne (same later), (read (grown.trans later)).annotations⟩
  · contradiction

theorem annotationResolves {name : Name}
    (annotated : given.annotate (given.annotations ++ [name]) = some given')
    (read : ∀ {u : SymbolTable}, t.Extends u → Pending.Read u given shown) :
    ∃ shown', SidRequest.announce member shown (naming t .annotate name).1 = some shown' ∧
      ∀ {u}, (name.resolve t).2.Extends u → Pending.Read u given' shown' := by
  have lengths := (read (.refl t)).annotations.1
  unfold Pending.annotate at annotated
  split at annotated
  · rename_i few
    cases annotated
    rw [List.length_append, List.length_singleton, lengths] at few
    obtain ⟨grown, same⟩ := name.resolveRead t
    refine ⟨{ shown with annotations := shown.annotations ++ [(name.resolve t).1] }, if_pos few,
      fun later => ?_⟩
    have earlier := read (grown.trans later)
    exact ⟨earlier.field, earlier.annotations.append (Name.allReadOne (same later))⟩
  · contradiction

theorem announceResolves {request : SessionRequest} (one : request.announce member given = some given')
    (read : ∀ {u : SymbolTable}, t.Extends u → Pending.Read u given shown) :
    ∃ call t' shown', request.resolve t = some (call, t') ∧
      call.announce member shown = some shown' ∧ t.Extends t' ∧
        ∀ {u}, t'.Extends u → Pending.Read u given' shown' := by
  cases request with
  | setField text =>
    obtain ⟨shown', announced, later⟩ := nameResolves one read
    exact ⟨_, _, shown', rfl, announced, ((Name.text text).resolveRead t).1, later⟩
  | setFieldToken token =>
    obtain ⟨name, known, one⟩ := Option.bind_eq_some_iff.mp one
    obtain ⟨shown', announced, later⟩ := nameResolves one read
    exact ⟨_, _, shown', by rw [resolve, known]; rfl, announced, (name.resolveRead t).1, later⟩
  | annotate text =>
    obtain ⟨shown', announced, later⟩ := annotationResolves one read
    exact ⟨_, _, shown', rfl, announced, ((Name.text text).resolveRead t).1, later⟩
  | annotateToken token =>
    obtain ⟨name, known, one⟩ := Option.bind_eq_some_iff.mp one
    obtain ⟨shown', announced, later⟩ := annotationResolves one read
    exact ⟨_, _, shown', by rw [resolve, known]; rfl, announced, (name.resolveRead t).1, later⟩
  | setAnnotations texts =>
    obtain ⟨grown, all⟩ := Name.resolveAllRead t (texts.map .text)
    have lengths := (all (.refl _)).1
    simp only [announce, Pending.annotate] at one
    split at one
    · rename_i few
      cases one
      rw [lengths] at few
      refine ⟨_, _, { shown with annotations := (Name.resolveAll t (texts.map .text)).1 }, rfl,
        if_pos few, grown, fun later => ⟨(read (grown.trans later)).field, all later⟩⟩
    · contradiction
  | clearAnnotations =>
    cases one
    exact ⟨_, _, { shown with annotations := [] }, rfl, rfl, .refl t,
      fun later => ⟨(read later).field, Name.allReadNothing⟩⟩
  | stepIn | stepOut | write | writeSymbol | writeSymbolToken | flush | finish | reset => contradiction

theorem announcedResolves {requests : List SessionRequest}
    (announced : requests.foldlM (announce member) given = some given')
    (read : ∀ {u : SymbolTable}, t.Extends u → Pending.Read u given shown) :
    ∃ calls t' shown', Resolves t requests calls t' ∧
      calls.foldlM (SidRequest.announce member) shown = some shown' ∧ t.Extends t' ∧
        ∀ {u}, t'.Extends u → Pending.Read u given' shown' := by
  induction requests generalizing given shown t with
  | nil =>
    cases announced
    exact ⟨[], t, shown, .nothing, rfl, .refl t, read⟩
  | cons request rest ih =>
    rw [List.foldlM_cons] at announced
    obtain ⟨middle, one, more⟩ := Option.bind_eq_some_iff.mp announced
    obtain ⟨call, t', shown', resolved, first, grown, read'⟩ := announceResolves one read
    obtain ⟨calls, t'', shown'', others, later, grown', read''⟩ := ih more read'
    refine ⟨call :: calls, t'', shown'', .first resolved others, ?_, grown.trans grown', read''⟩
    rw [List.foldlM_cons, first]
    exact later

end SessionRequest

theorem Given.Written.resolves {member : Bool} {values : List Given} {requests : List SessionRequest}
    (written : Written member values requests) (t : SymbolTable) :
    ∃ calls t' trees, SessionRequest.Resolves t requests calls t' ∧
      Tree.Written member trees calls ∧ t.Extends t' ∧
        ∀ {u}, t'.Extends u → Given.Read u values trees := by
  induction written generalizing t with
  | nothing => exact ⟨[], t, [], .nothing, .nothing, .refl t, fun _ => .nothing⟩
  | @atom member field names a rest before after announced more ih =>
    obtain ⟨calls, t', shown, first, leads, grown, labels⟩ :=
      SessionRequest.announcedResolves announced fun _ => Pending.readNothing
    obtain ⟨calls', t'', trees, others, written, grown', read⟩ := ih t'
    have one : SessionRequest.resolve t' (.write a) = some (.write a, t') := rfl
    exact ⟨_, t'', _, first.append (.first one others), .atom leads written, grown.trans grown',
      fun later => .atom (labels (grown'.trans later)) (read later)⟩
  | @symbol member field names name request rest before after announced writes more ih =>
    obtain ⟨calls, t', shown, first, leads, grown, labels⟩ :=
      SessionRequest.announcedResolves announced fun _ => Pending.readNothing
    obtain ⟨grown', same⟩ := name.resolveRead t'
    obtain ⟨calls', t'', trees, others, written, grown'', read⟩ := ih (name.resolve t').2
    have one : request.resolve t' =
        some (.write (.symbol (name.resolve t').1), (name.resolve t').2) := by
      cases writes with
      | text => rfl
      | token given =>
        rw [SessionRequest.resolve, given]
        rfl
    exact ⟨_, t'', _, first.append (.first one others), .atom leads written,
      grown.trans (grown'.trans grown''),
      fun later => .symbol (labels (grown'.trans (grown''.trans later))) (same (grown''.trans later))
        (read later)⟩
  | @container member field names kind children rest before calls after announced inner more innerIh
      moreIh =>
    obtain ⟨calls, t1, shown, first, leads, grown, labels⟩ :=
      SessionRequest.announcedResolves announced fun _ => Pending.readNothing
    obtain ⟨body, t2, children', within, children, grown', readInner⟩ := innerIh t1
    obtain ⟨calls', t3, trees, others, written, grown'', read⟩ := moreIh t2
    have enter : SessionRequest.resolve t1 (.stepIn kind.type) = some (.stepIn kind.type, t1) := rfl
    have leave : SessionRequest.resolve t2 .stepOut = some (.stepOut, t2) := rfl
    exact ⟨_, t3, _, first.append (.first enter (within.append (.first leave others))),
      .container leads children written, grown.trans (grown'.trans grown''),
      fun later => .container (labels (grown'.trans (grown''.trans later)))
        (readInner (grown''.trans later)) (read later)⟩

def Name.Fits : Name → Prop
  | text _ => True
  | sid n => n ≤ Sid.last

namespace Given

structure Named (member : Bool) (field : Option Name) (annotations : List Name) : Prop where
  named : field.isSome = member
  few : annotations.length ≤ SidWriter.annotationLimit
  fieldFits : ∀ name ∈ field.toList, name.Fits
  annotationsFit : ∀ name ∈ annotations, name.Fits

mutual

def WellFormed (member : Bool) : Given → Prop
  | atom field annotations a => Named member field annotations ∧ a.WellFormed
  | symbol field annotations name => Named member field annotations ∧ name.Fits
  | container field annotations kind children =>
    Named member field annotations ∧ WellFormedAll (kind == .struct) children

def WellFormedAll (member : Bool) : List Given → Prop
  | [] => True
  | g :: rest => g.WellFormed member ∧ WellFormedAll member rest

end

def isTable : Given → Bool
  | container _ names .struct _ =>
    names.head? == some (.sid Sid.symbolTable) || names.head? == some (.text "$ion_symbol_table")
  | _ => false

end Given

theorem Name.ReadAs.fits {t : SymbolTable} (room : t.maxId ≤ Sid.last) {name : Name} {sid : Nat}
    (read : name.ReadAs (t.token sid)) (fits : name.Fits) : sid ≤ Sid.last := by
  cases name with
  | text s => exact Nat.le_trans (SymbolTable.textBound read) room
  | sid n =>
    cases read
    exact fits

theorem Name.AllRead.fit {t : SymbolTable} (room : t.maxId ≤ Sid.last) {names : List Name}
    {sids : List Nat} (read : AllRead t names sids) (fit : ∀ name ∈ names, name.Fits) :
    ∀ sid ∈ sids, sid ≤ Sid.last := by
  intro sid mem
  obtain ⟨i, inside, rfl⟩ := List.mem_iff_getElem.mp mem
  have inside' : i < names.length := read.1 ▸ inside
  have both : i < (names.zip sids).length := by
    rw [List.length_zip]
    omega
  have pair := read.2 _ (List.getElem_mem both)
  rw [List.getElem_zip] at pair
  exact pair.fits room (fit _ (List.getElem_mem inside'))

theorem Pending.Read.presence {t : SymbolTable} {field : Option Name} {names : List Name}
    {field' : Option Nat} {sids : List Nat} (labels : Pending.Read t ⟨field, names⟩ ⟨field', sids⟩) :
    field'.isSome = field.isSome := by
  have lengths := labels.field.1
  cases field <;> cases field' <;> simp at lengths <;> rfl

theorem Pending.Read.named {t : SymbolTable} (room : t.maxId ≤ Sid.last) {member : Bool}
    {field : Option Name} {names : List Name} {field' : Option Nat} {sids : List Nat}
    (labels : Pending.Read t ⟨field, names⟩ ⟨field', sids⟩) (named : Given.Named member field names) :
    Tree.Named member field' sids := by
  refine ⟨labels.presence.trans named.named, labels.annotations.1 ▸ named.few, ?_,
    labels.annotations.fit room named.annotationsFit⟩
  intro sid mem
  exact labels.field.fit room named.fieldFits sid (Option.mem_toList.mpr mem)

theorem Given.Read.accepted {t : SymbolTable} {values : List Given} {trees : List Tree}
    (read : Read t values trees) {member : Bool} (formed : WellFormedAll member values) :
    Tree.AcceptedAll member trees := by
  induction read generalizing member with
  | nothing => trivial
  | atom labels more ih =>
    exact ⟨⟨labels.presence.trans formed.1.1.named, formed.1.2.encodes⟩, ih formed.2⟩
  | symbol labels same more ih =>
    exact ⟨⟨labels.presence.trans formed.1.1.named, _, rfl⟩, ih formed.2⟩
  | container labels inner more innerIh moreIh =>
    exact ⟨⟨labels.presence.trans formed.1.1.named, innerIh formed.1.2⟩, moreIh formed.2⟩

theorem Given.Read.formed {t : SymbolTable} (room : t.maxId ≤ Sid.last) {values : List Given}
    {trees : List Tree} (read : Read t values trees) {member : Bool}
    (formed : WellFormedAll member values) : Tree.WellFormedAll member trees := by
  induction read generalizing member with
  | nothing => trivial
  | atom labels more ih => exact ⟨⟨labels.named room formed.1.1, formed.1.2⟩, ih formed.2⟩
  | symbol labels same more ih =>
    exact ⟨⟨labels.named room formed.1.1, same.fits room formed.1.2⟩, ih formed.2⟩
  | container labels inner more innerIh moreIh =>
    exact ⟨⟨labels.named room formed.1.1, innerIh formed.1.2⟩, moreIh formed.2⟩

theorem Name.ReadAs.symbolTable {t : SymbolTable} {name : Name}
    (read : name.ReadAs (t.token Sid.symbolTable)) :
    name = .sid Sid.symbolTable ∨ name = .text "$ion_symbol_table" := by
  cases name with
  | sid n =>
    cases read
    exact .inl rfl
  | text s =>
    have known : t.text? Sid.symbolTable = some "$ion_symbol_table" := by
      rw [SymbolTable.text?, if_pos t.imports.tableInside, t.imports.tableName]
    have same : t.text? Sid.symbolTable = some s := read
    rw [known, Option.some.injEq] at same
    exact .inr (by rw [same])

theorem Given.Read.plain {t : SymbolTable} {values : List Given} {trees : List Tree}
    (read : Read t values trees) (plain : ∀ g ∈ values, g.isTable = false) :
    ∀ u ∈ trees, u.isTable = false := by
  induction read with
  | nothing => simp
  | atom labels more ih | symbol labels same more ih =>
    intro u mem
    rcases List.mem_cons.mp mem with rfl | later
    · rfl
    · exact ih (fun g known => plain g (List.mem_cons_of_mem _ known)) u later
  | @container field names kind children rest field' sids children' rest' labels inner more _ ih =>
    intro u mem
    rcases List.mem_cons.mp mem with rfl | later
    · have first := plain _ List.mem_cons_self
      cases kind with
      | list | sexp => rfl
      | struct =>
        have lengths := labels.annotations.1
        have reads := labels.annotations.2
        cases names with
        | nil =>
          cases sids with
          | nil => rfl
          | cons sid others => contradiction
        | cons name others =>
          cases sids with
          | nil => contradiction
          | cons sid others' =>
            have read := reads (name, sid) List.mem_cons_self
            by_cases table : sid = Sid.symbolTable
            · subst table
              rcases Name.ReadAs.symbolTable read with rfl | rfl <;> simp [isTable] at first
            · simpa [Tree.isTable] using table
    · exact ih (fun g known => plain g (List.mem_cons_of_mem _ known)) u later

def Name.token : Name → SymbolToken
  | text s => ⟨some s, none⟩
  | sid n => ⟨none, some n⟩

theorem Name.tokenName (name : Name) : name.token.name? = some name := by cases name <;> rfl

theorem Pending.annotates {member : Bool} (names : List Name) {p : Pending Name}
    (few : p.annotations.length + names.length ≤ SidWriter.annotationLimit) :
    (names.map fun name => SessionRequest.annotateToken name.token).foldlM
      (SessionRequest.announce member) p = some { p with annotations := p.annotations ++ names } := by
  induction names generalizing p with
  | nil => simp
  | cons name rest ih =>
    rw [List.length_cons] at few
    have first : SessionRequest.announce member p (.annotateToken name.token) =
        some { p with annotations := p.annotations ++ [name] } := by
      rw [SessionRequest.announce, name.tokenName, Option.bind_some, Pending.annotate, if_pos]
      rw [List.length_append, List.length_singleton]
      omega
    have more := @ih { p with annotations := p.annotations ++ [name] }
      (by rw [List.length_append, List.length_singleton]; omega)
    rw [List.map_cons, List.foldlM_cons, first, List.append_assoc] at *
    exact more

theorem Given.Named.announces {member : Bool} {field : Option Name} {names : List Name}
    (named : Named member field names) :
    ∃ before, SessionRequest.announced member before = some ⟨field, names⟩ := by
  have few : ∀ (field : Option Name),
      (names.map fun name => SessionRequest.annotateToken name.token).foldlM
        (SessionRequest.announce member) ⟨field, []⟩ = some ⟨field, names⟩ := fun field =>
    Pending.annotates (p := ⟨field, []⟩) names (by simpa using named.few)
  have presence := named.named
  cases field with
  | none => exact ⟨_, few none⟩
  | some name =>
    have inside : member = true := presence.symm
    have first : SessionRequest.announce member .nothing (.setFieldToken name.token) =
        some ⟨some name, []⟩ := by
      rw [SessionRequest.announce, name.tokenName, Option.bind_some, Pending.name, if_pos inside]
      rfl
    refine ⟨.setFieldToken name.token :: names.map fun name => .annotateToken name.token, ?_⟩
    rw [SessionRequest.announced, List.foldlM_cons, first]
    exact few (some name)

theorem Given.writable (values : List Given) {member : Bool} (formed : WellFormedAll member values) :
    ∃ calls, Written member values calls := by
  match values with
  | [] => exact ⟨[], .nothing⟩
  | .atom field names a :: rest =>
    obtain ⟨before, announced⟩ := formed.1.1.announces
    obtain ⟨after, more⟩ := writable rest formed.2
    exact ⟨_, .atom announced more⟩
  | .symbol field names name :: rest =>
    obtain ⟨before, announced⟩ := formed.1.1.announces
    obtain ⟨after, more⟩ := writable rest formed.2
    exact ⟨_, .symbol announced (.token name.tokenName) more⟩
  | .container field names kind children :: rest =>
    obtain ⟨before, announced⟩ := formed.1.1.announces
    obtain ⟨calls, inner⟩ := writable children formed.1.2
    obtain ⟨after, more⟩ := writable rest formed.2
    exact ⟨_, .container announced inner more⟩

end Ion
