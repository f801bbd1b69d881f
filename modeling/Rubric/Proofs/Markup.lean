/-
  Rubric — what reading markup yields.

  Nothing that is read is executed, and the reader sets no tags.  Each state of
  the reader holds fresh inlines only, in the passage, in the open groups and
  in the command whose groups are being read; one character keeps this.

  * **`Markup.isFresh_of_mem_parse`**: the inlines of a text are fresh.
-/
import Rubric.Markup
import Rubric.Proofs.Inline

namespace Rubric.Markup

open Text

/-! ## Fresh states -/

/-- All complete inlines of the passage are fresh. -/
def Passage.IsFresh (p : Passage) : Prop :=
  ∀ i ∈ p.inlines, i.IsFresh

/-- The parameters of an open group are fresh, and the passage around its command is. -/
def Group.IsFresh (g : Group) : Prop :=
  (∀ i ∈ g.parameters, i.IsFresh) ∧ g.outer.IsFresh

/-- The parameters of the command that the reader stands behind. -/
def Mode.parameters : Mode → List Inline
  | .text | .backslash | .name _ => []
  | .command _ _ parameters => parameters

/-- All inlines that the reader holds are fresh. -/
structure Reader.IsFresh (r : Reader) : Prop where
  passage : r.passage.IsFresh
  groups : ∀ g ∈ r.groups, g.IsFresh
  mode : ∀ i ∈ r.mode.parameters, i.IsFresh

theorem Passage.IsFresh.inlinesWithLiteral {p : Passage} (h : p.IsFresh) :
    ∀ i ∈ p.inlinesWithLiteral, i.IsFresh := by
  intro i hi
  unfold Passage.inlinesWithLiteral at hi
  split at hi
  · exact h i hi
  · rcases Array.mem_push.1 hi with hi | rfl
    · exact h i hi
    · exact Inline.isFresh_text _

theorem Passage.IsFresh.append {p : Passage} (h : p.IsFresh) {i : Inline} (hi : i.IsFresh) :
    (p.append i).IsFresh := by
  intro j hj
  rcases Array.mem_push.1 hj with hj | rfl
  · exact h.inlinesWithLiteral j hj
  · exact hi

theorem Passage.isFresh_empty : ({} : Passage).IsFresh := by
  intro i hi; simp at hi

theorem isFresh_parameter {l : List Inline} (h : ∀ i ∈ l, i.IsFresh) : (parameter l).IsFresh := by
  unfold parameter
  split
  · exact Inline.isFresh_text _
  · exact h _ (by simp)
  · exact Inline.isFresh_span.2 ⟨rfl, h⟩

theorem Passage.IsFresh.parameter {p : Passage} (h : p.IsFresh) :
    (Markup.parameter p.close).IsFresh :=
  isFresh_parameter fun i hi => h.inlinesWithLiteral i (Array.mem_toList_iff.1 hi)

/-! ## Steps of the reader -/

namespace Reader.IsFresh

variable {r : Reader} (h : r.IsFresh)
include h

theorem literal (c : Char) : (r.literal c).IsFresh :=
  ⟨h.passage, h.groups, by simp [Reader.literal, Mode.parameters]⟩

theorem brace (c : Char) (depth : Nat) : (r.brace c depth).IsFresh :=
  ⟨h.passage, h.groups, by simp [Reader.brace, Mode.parameters]⟩

theorem endCommand {name : String} {kind : CommandKind} {parameters : List Inline}
    (hp : ∀ i ∈ parameters, i.IsFresh) : (r.endCommand name kind parameters).IsFresh :=
  ⟨h.passage.append (Inline.isFresh_command.2 ⟨rfl, rfl, hp⟩), h.groups,
    by simp [Reader.endCommand, Mode.parameters]⟩

/-- The parameters of an open group once the passage in it has ended. -/
theorem closeGroup {g : Group} (hg : g.IsFresh) :
    ∀ i ∈ g.parameters ++ [parameter r.passage.close], i.IsFresh := by
  intro i hi
  rcases List.mem_append.1 hi with hi | hi
  · exact hg.1 i hi
  · rw [List.mem_singleton.1 hi]; exact h.passage.parameter

theorem readText (c : Char) : (r.readText c).IsFresh := by
  unfold Reader.readText
  split
  · exact ⟨h.passage, h.groups, by simp [Mode.parameters]⟩
  · split
    · exact h.literal c
    · rename_i group outer hgroups
      have hg : group.IsFresh := h.groups group (by simp [hgroups])
      have ho : ∀ g ∈ outer, g.IsFresh := fun g hg => h.groups g (by simp [hgroups, hg])
      split
      · exact h.brace c _
      · split
        · split
          · exact h.brace c _
          · exact h.literal c
        · split
          -- a bar: the passage becomes a parameter of the innermost group
          · refine ⟨Passage.isFresh_empty, ?_, h.mode⟩
            intro g hg'
            rcases List.mem_cons.1 hg' with rfl | hg'
            · exact ⟨h.closeGroup hg, hg.2⟩
            · exact ho g hg'
          · split
            -- a closing brace: the reader goes back to the passage around the command
            · exact ⟨hg.2, ho, h.closeGroup hg⟩
            · exact h.literal c

theorem readCommand {name : String} {kind : CommandKind} {parameters : List Inline}
    (hp : ∀ i ∈ parameters, i.IsFresh) (c : Char) :
    (r.readCommand name kind parameters c).IsFresh := by
  unfold Reader.readCommand
  split
  · refine ⟨Passage.isFresh_empty, ?_, by simp [Mode.parameters]⟩
    intro g hg
    rcases List.mem_cons.1 hg with rfl | hg
    · exact ⟨hp, h.passage⟩
    · exact h.groups g hg
  · exact (h.endCommand hp).readText c

theorem step {commands : Commands} {c : Char} {r' : Reader}
    (hs : Reader.step commands r c = .ok r') : r'.IsFresh := by
  suffices hread : ∀ {next}, r.read commands c = .ok next → next.IsFresh by
    rcases hr : r.read commands c with e | next
    · simp [Reader.step, hr, bind, Except.bind] at hs
    · have hn := hread hr
      simp only [Reader.step, hr, bind, Except.bind, pure, Except.pure, Except.ok.injEq] at hs
      subst hs
      exact ⟨hn.passage, hn.groups, hn.mode⟩
  intro next hnext
  unfold Reader.read at hnext
  split at hnext
  · cases hnext; exact h.readText c
  · split at hnext <;> cases hnext
    · exact ⟨h.passage, h.groups, by simp [Mode.parameters]⟩
    · exact (h.literal _).readText c
  · split at hnext
    · cases hnext; exact ⟨h.passage, h.groups, by simp [Mode.parameters]⟩
    · rename_i letters _ _
      rcases hk : commands.kind letters with e | kind
      · simp [hk, bind, Except.bind] at hnext
      · simp only [hk, bind, Except.bind, pure, Except.pure, Except.ok.injEq] at hnext
        subst hnext
        exact h.readCommand (by simp) c
  · rename_i name kind parameters hmode
    cases hnext
    exact h.readCommand (by simpa [hmode, Mode.parameters] using h.mode) c

theorem run {commands : Commands} {s : List Char} {r' : Reader}
    (hs : s.foldlM (Reader.step commands) r = .ok r') : r'.IsFresh := by
  induction s generalizing r with
  | nil => cases hs; exact h
  | cons c s ih =>
    rw [List.foldlM_cons] at hs
    rcases hr : r.step commands c with e | r₁
    · simp [hr, bind, Except.bind] at hs
    · rw [hr] at hs
      exact ih (h.step hr) hs

theorem settle {commands : Commands} {r' : Reader} (hs : r.settle commands = .ok r') :
    r'.IsFresh := by
  unfold Reader.settle at hs
  split at hs
  · cases hs; exact h
  · cases hs; exact h.literal _
  · rename_i letters _
    rcases hk : commands.kind letters with e | kind
    · simp [hk, bind, Except.bind] at hs
    · simp only [hk, bind, Except.bind, pure, Except.pure, Except.ok.injEq] at hs
      subst hs
      exact h.endCommand (by simp)
  · rename_i name kind parameters hmode
    cases hs
    exact h.endCommand (by simpa [hmode, Mode.parameters] using h.mode)

end Reader.IsFresh

/-! ## Whole texts -/

/-- **The inlines of a text are fresh.** -/
theorem isFresh_of_mem_parse {commands : Commands} {source : String} {inlines : List Inline}
    (h : parse commands source = .ok inlines) : ∀ i ∈ inlines, i.IsFresh := by
  have hstart : ({} : Reader).IsFresh :=
    ⟨Passage.isFresh_empty, by simp, by simp [Mode.parameters]⟩
  rcases hr : source.toList.foldlM (Reader.step commands) {} with e | r
  · simp [parse, hr, bind, Except.bind] at h
  · simp only [parse, hr, bind, Except.bind, Reader.finish] at h
    rcases hs : r.settle commands with e | r'
    · simp [hs] at h
    · have hf := (hstart.run hr).settle hs
      simp only [hs] at h
      split at h
      · cases h
        intro i hi
        exact hf.passage.inlinesWithLiteral i (Array.mem_toList_iff.1 hi)
      · simp [throw, throwThe, MonadExceptOf.throw] at h

end Rubric.Markup
