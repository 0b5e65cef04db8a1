import Ion.Proofs.Resets

/-! Sessions one after the other: what is left of a session when it is finished, two empty raw writers
and some empty lists to spare, no later call can see. -/
namespace Ion

namespace SidWriter

def Bare (w : SidWriter) : Prop := ∀ list ∈ w.spare, list = []

theorem bareStable : Stable Bare where
  pending bare _ _ _ := bare
  append bare _ := bare
  openFrame bare _ list mem := bare list (List.mem_of_mem_tail mem)
  closeFrame {w} bare := by
    unfold closeFrame
    split
    · intro list mem
      rcases List.mem_cons.mp mem with rfl | old
      · rfl
      · exact bare list old
    · exact bare
  restart {w} bare closed := by
    have kept : w.restart.spare = w.spare := if_pos closed
    intro list mem
    rw [kept] at mem
    exact bare list mem
  resumed bare := bare

end SidWriter

namespace SessionWriter

theorem stableCongruence {P : SidWriter → Prop} (stable : SidWriter.Stable P) :
    Congruence (fun w v => w = v ∧ P w) (· = ·) fun w v => w = v ∧ P w.user where
  users := stable.congruence
  marks := .same
  declares _ _ _ := .same
  sends := by
    rintro ⟨w, sink⟩ ⟨_, _⟩ ⟨rfl, rfl⟩
    cases SidWriter.flush (w, sink) <;> exact ⟨rfl, rfl, rfl⟩
  user same := ⟨same.1 ▸ rfl, same.2⟩
  system same := same.1 ▸ rfl
  symbols same := same.1 ▸ rfl
  declared same := same.1 ▸ rfl
  tableWritten same := same.1 ▸ rfl
  sessionOpen same := same.1 ▸ rfl
  withUser same _ _ users := by
    obtain ⟨rfl, -⟩ := same
    obtain ⟨rfl, holds⟩ := users
    exact ⟨rfl, holds⟩
  withSystem same _ _ systems := ⟨same.1 ▸ systems ▸ rfl, same.2⟩
  grown same _ _ := ⟨same.1 ▸ rfl, same.2⟩
  announced same _ _ _ := ⟨same.1 ▸ rfl, same.2⟩
  ended same := ⟨same.1 ▸ rfl, same.2⟩

theorem stableAfter {P : SidWriter → Prop} (stable : SidWriter.Stable P) {w : SessionWriter}
    (holds : P w.user) {history : List SessionRequest} (kept : .reset ∉ history) :
    P (Calls.after perform w history).user := by
  induction history generalizing w with
  | nil => exact holds
  | cons request rest ih =>
    have step := (stableCongruence stable).performs ⟨rfl, holds⟩ (List.ne_of_not_mem_cons kept).symm
    exact ih step.2.2 (List.not_mem_of_not_mem_cons kept)

variable {tables : List SharedTable} {blockSize : Nat} {w w' : SessionWriter} {sink after : Sink}
  {count : Nat}

theorem finishResets (ok : finish (w, sink) = .ok count (w', after)) :
    ∃ v, prepare w = .ok () v ∧ v.user.below = [] ∧ w' = v.reset := by
  obtain ⟨_, ⟨flushed, _⟩, one, ended⟩ := bindOk ok
  obtain ⟨v, system, user, middle, _, _, prepares, sent, sent', rfl⟩ := flushParts one
  obtain ⟨systemReady, rfl, -⟩ := SidWriter.flushed sent
  obtain ⟨userReady, rfl, -⟩ := SidWriter.flushed sent'
  cases ended
  have healthy {u : SidWriter} (ready : SidWriter.checkFlushable u = .ok () u) : u.restart = u.reset := by
    have same : u.restart.poisoned = false := (SidWriter.checkedReady ready).2.2.2
    rw [SidWriter.reset, ← same]
  refine ⟨v, prepares, (SidWriter.checkedReady userReady).2.1, ?_⟩
  rw [reset, ← healthy systemReady, ← healthy userReady]

theorem Twin.finished (twin : Twin tables (max blockSize 16) w w) (bare : w.user.Bare)
    (ok : finish (w, sink) = .ok count (w', after)) :
    Twin tables (max blockSize 16) w' (.empty blockSize tables) := by
  obtain ⟨v, prepares, closed, rfl⟩ := finishResets ok
  have prepared := Twin.congruence.prepare w w twin
  rw [prepares] at prepared
  have kept := (stableCongruence SidWriter.bareStable).prepare w w ⟨rfl, bare⟩
  rw [prepares] at kept
  refine prepared.2.fresh ?_
  rw [SidWriter.abandoned, if_pos closed]
  exact kept.2.2

end SessionWriter

/-- Nothing of a session outlives its finish, though flushes may have failed in it. -/
theorem finishedIsNew (blockSize : Nat) (tables : List SharedTable) {history : List SessionRequest}
    (kept : .reset ∉ history) {w w' : SessionWriter}
    (reached : Calls.after SessionWriter.perform (.empty blockSize tables) history = w)
    {sink after : Sink} {count : Nat} (finished : w.perform (.finish sink) = (.flushed count after, w')) :
    w'.view = (SessionWriter.empty blockSize tables).view ∧
      ∀ later, Calls.trace SessionWriter.perform SessionWriter.view w' later =
        Calls.trace SessionWriter.perform SessionWriter.view (.empty blockSize tables) later := by
  have twin : SessionWriter.Twin tables (max blockSize 16) w w := by
    rw [← reached]
    exact Calls.afterAlike (fun request => SessionWriter.Twin.performs request) (.empty blockSize tables)
      history
  have bare : w.user.Bare := by
    rw [← reached]
    exact SessionWriter.stableAfter SidWriter.bareStable (by simp [SidWriter.Bare, SessionWriter.empty,
      SidWriter.empty]) kept
  have fresh := twin.finished bare (Reply.flushedIff.mp finished)
  exact ⟨fresh.view, Calls.traceAlike (fun request => SessionWriter.Twin.performs request)
    (fun same => same.view) fresh⟩

theorem finishedAfterFailures :
    let history : List SessionRequest :=
      [.writeSymbol "a", .flush (.empty (some 6) false), .annotateToken ⟨none, none⟩, .annotate "b",
        .stepIn .list, .write (.bool true), .stepOut, .flush (.empty none false), .writeSymbol "c"]
    let w := Calls.after SessionWriter.perform (.empty Pool.defaultBlockSize [.ofTexts "s" 1 ["t"]])
      history
    let finished := w.perform (.finish (.empty none false))
    finished.1 = .flushed 13 ⟨none, false,
        [0xEA, 0x81, 0x83, 0xD7, 0x86, 0x71, 0x03, 0x87, 0xB2, 0x81, 0x63, 0x71, 0x0D]⟩ ∧
      ∀ later, Calls.trace SessionWriter.perform SessionWriter.view finished.2 later =
        Calls.trace SessionWriter.perform SessionWriter.view
          (.empty Pool.defaultBlockSize [.ofTexts "s" 1 ["t"]]) later := by
  intro history w finished
  have sent : finished.1 = .flushed 13 ⟨none, false,
      [0xEA, 0x81, 0x83, 0xD7, 0x86, 0x71, 0x03, 0x87, 0xB2, 0x81, 0x63, 0x71, 0x0D]⟩ := by
    decide +kernel
  have kept : .reset ∉ history := by decide
  exact ⟨sent, (finishedIsNew _ _ kept rfl (Reply.andState sent)).2⟩

end Ion
