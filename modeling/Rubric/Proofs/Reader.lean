/-
  Rubric — what reading one character of markup can do.

  A character either goes on with what the reader is in the middle of, a name or
  the groups of a command, or ends it; then it is read as text.

  * `Mode.Takes`: the characters that go on with it;
  * `Reader.Reads`: all that reading a character can do, with `Reader.ReadsText`
    for text; **`Reader.reads_of_step`**;
  * `Reader.run_induction`: what holds of the state behind a text, from what one
    character does to it;
  * `parse_eq_ok`, `parse_eq_error`: how a reading ends.
-/
import Rubric.Proofs.Markup

namespace Rubric.Markup

open Text

/-- The depth of literal braces in a parameter behind a literal character; a character that would
    end the parameter is none. -/
def literalDepth (depth : Nat) (c : Char) : Option Nat :=
  if c = '{' then some (depth + 1)
  else if c = '}' then if depth = 0 then none else some (depth - 1)
  else if c = '|' then if depth = 0 then none else some depth
  else some depth

theorem not_isNameChar_backslash : isNameChar '\\' = false := by decide +kernel

theorem not_isNameChar_bar : isNameChar '|' = false := by decide +kernel

theorem not_isNameChar_close : isNameChar '}' = false := by decide +kernel

theorem not_isNameChar_open : isNameChar '{' = false := by decide +kernel

/-- The character goes on with the name or with the command that the reader is at. -/
def Mode.Takes : Mode → Char → Prop
  | .text, _ => False
  | .backslash, c => isNameChar c
  | .name _, c => isNameChar c ∨ c = '\x7b'
  | .command .., c => c = '\x7b'

/-- A name: some name characters. -/
def IsName (name : String) : Prop :=
  name ≠ "" ∧ ∀ c ∈ name.toList, isNameChar c

/-- A name that is being read is one, and a command with a closed group has a parameter. -/
def Mode.IsBegun : Mode → Prop
  | .text | .backslash => True
  | .name letters => IsName letters
  | .command _ _ parameters => parameters ≠ []

namespace Reader

variable {commands : Commands} {r r' s : Reader} {c : Char} {name : String} {kind : CommandKind}
  {parameters : List Inline}

/-! ## What a character can do -/

/-- The reader stands behind a command with these parameters, and further groups would be its. -/
inductive Behind (commands : Commands) (r : Reader) :
    String → CommandKind → List Inline → Prop
  | name {letters : String} {kind : CommandKind} :
      r.mode = .name letters → commands.kind letters = .ok kind → Behind commands r letters kind []
  | command {name : String} {kind : CommandKind} {parameters : List Inline} :
      r.mode = .command name kind parameters → Behind commands r name kind parameters

/-- What reading a character of text can do. -/
inductive ReadsText (s : Reader) (c : Char) : Reader → Prop
  | backslash : c = '\\' → ReadsText s c { s with mode := .backslash }
  | literal {depth : Nat} :
      c ≠ '\\' →
      s.groups = [] ∧ depth = s.passage.depth ∨
        s.groups ≠ [] ∧ literalDepth s.passage.depth c = some depth →
      ReadsText s c { s with mode := .text, passage := { s.passage.push c with depth } }
  | bar {group : Group} {outer : List Group} :
      c = '|' → s.groups = group :: outer → s.passage.depth = 0 →
      ReadsText s c { s with
        passage := {}
        groups :=
          { group with parameters := group.parameters ++ [parameter s.passage.close] } :: outer }
  | close {group : Group} {outer : List Group} :
      c = '}' → s.groups = group :: outer → s.passage.depth = 0 →
      ReadsText s c { s with
        mode := .command group.name group.kind (group.parameters ++ [parameter s.passage.close])
        passage := group.outer
        groups := outer }

/-- What reading a character can do, its size aside. -/
inductive Reads (commands : Commands) (r : Reader) (c : Char) : Reader → Prop
  | start : r.mode = .backslash → isNameChar c →
      Reads commands r c { r with mode := .name (String.singleton c) }
  | letter {letters : String} : r.mode = .name letters → isNameChar c →
      Reads commands r c { r with mode := .name (letters.push c) }
  | group {name : String} {kind : CommandKind} {parameters : List Inline} :
      r.Behind commands name kind parameters → c = '\x7b' →
      Reads commands r c { r with
        mode := .text
        passage := {}
        groups := { offset := r.offset, name, kind, parameters, outer := r.passage } :: r.groups }
  | text {s r' : Reader} : ¬ r.mode.Takes c → r.settle commands = .ok s → s.ReadsText c r' →
      Reads commands r c r'

/-! ## Text -/

theorem readText_backslash : s.readText '\\' = { s with mode := .backslash } := by
  rw [readText, if_pos rfl]

theorem readText_literal {depth : Nat} (hc : c ≠ '\\')
    (hdepth : s.groups = [] ∧ depth = s.passage.depth ∨
      s.groups ≠ [] ∧ literalDepth s.passage.depth c = some depth) :
    s.readText c = { s with mode := .text, passage := { s.passage.push c with depth } } := by
  rw [readText, if_neg hc]
  rcases hdepth with ⟨hgroups, rfl⟩ | ⟨hgroups, hdepth⟩
  · simp [literal, hgroups, Passage.push]
  · obtain ⟨group, outer, hg⟩ := List.exists_cons_of_ne_nil hgroups
    rw [hg]
    simp only [literalDepth] at hdepth
    grind [literal, brace, Passage.push]

theorem readText_bar {group : Group} {outer : List Group} (hg : s.groups = group :: outer)
    (hdepth : s.passage.depth = 0) :
    s.readText '|' = { s with
      passage := {}
      groups :=
        { group with parameters := group.parameters ++ [parameter s.passage.close] } :: outer } := by
  simp [readText, hg, hdepth]

theorem readText_close {group : Group} {outer : List Group} (hg : s.groups = group :: outer)
    (hdepth : s.passage.depth = 0) :
    s.readText '\x7d' = { s with
      mode := .command group.name group.kind (group.parameters ++ [parameter s.passage.close])
      passage := group.outer
      groups := outer } := by
  simp [readText, hg, hdepth]

theorem readsText_readText (s : Reader) (c : Char) : s.ReadsText c (s.readText c) := by
  by_cases hc : c = '\\'
  · subst hc
    rw [readText_backslash]
    exact .backslash rfl
  rcases hg : s.groups with _ | ⟨group, outer⟩
  · have htop : s.groups = [] ∧ s.passage.depth = s.passage.depth ∨
        s.groups ≠ [] ∧ literalDepth s.passage.depth c = some s.passage.depth := Or.inl ⟨hg, rfl⟩
    rw [readText_literal hc htop]
    exact .literal hc htop
  rcases hd : literalDepth s.passage.depth c with _ | depth
  · -- only a bar or a closing brace outside of literal braces ends a parameter
    have hends : (c = '|' ∨ c = '\x7d') ∧ s.passage.depth = 0 := by
      simp only [literalDepth] at hd
      grind
    obtain ⟨rfl | rfl, hdepth⟩ := hends
    · rw [readText_bar hg hdepth]
      exact .bar rfl hg hdepth
    · rw [readText_close hg hdepth]
      exact .close rfl hg hdepth
  · have hin : s.groups = [] ∧ depth = s.passage.depth ∨
        s.groups ≠ [] ∧ literalDepth s.passage.depth c = some depth := Or.inr ⟨by simp [hg], hd⟩
    rw [readText_literal hc hin]
    exact .literal hc hin

/-! ## Settled readers -/

/-- What has ended with the text before a character. -/
theorem settle_eq_ok : r.settle commands = .ok s ↔
    r.mode = .text ∧ s = r ∨ r.mode = .backslash ∧ s = r.literal '\\' ∨
      ∃ name kind parameters, r.Behind commands name kind parameters ∧
        s = r.endCommand name kind parameters := by
  rcases hm : r.mode with _ | _ | letters | ⟨name, kind, parameters⟩
  · have hnot : ∀ name kind parameters, ¬ r.Behind commands name kind parameters := by
      rintro name kind parameters (⟨h, -⟩ | ⟨h⟩) <;> rw [hm] at h <;> cases h
    simp [settle, hm, pure, Except.pure, eq_comm, hnot]
  · have hnot : ∀ name kind parameters, ¬ r.Behind commands name kind parameters := by
      rintro name kind parameters (⟨h, -⟩ | ⟨h⟩) <;> rw [hm] at h <;> cases h
    simp [settle, hm, pure, Except.pure, eq_comm, hnot]
  · rcases hk : commands.kind letters with e | kind
    · simp only [settle, hm, hk, bind, Except.bind, reduceCtorEq, false_and, false_or, false_iff]
      rintro ⟨name, kind, parameters, ⟨h, hkind⟩ | ⟨h⟩, -⟩ <;> rw [hm] at h <;> cases h
      rw [hk] at hkind
      cases hkind
    · simp only [settle, hm, hk, bind, Except.bind, pure, Except.pure, Except.ok.injEq,
        reduceCtorEq, false_and, false_or]
      constructor
      · rintro rfl
        exact ⟨letters, kind, [], .name hm hk, rfl⟩
      · rintro ⟨name, kind', parameters, ⟨h, hkind⟩ | ⟨h⟩, rfl⟩ <;> rw [hm] at h <;> cases h
        rw [hk] at hkind
        cases hkind
        rfl
  · simp only [settle, hm, pure, Except.pure, Except.ok.injEq, reduceCtorEq, false_and, false_or]
    constructor
    · rintro rfl
      exact ⟨name, kind, parameters, .command hm, rfl⟩
    · rintro ⟨name', kind', parameters', ⟨h, hkind⟩ | ⟨h⟩, rfl⟩ <;> rw [hm] at h <;> cases h
      rfl

theorem settle_of_text (h : r.mode = .text) : r.settle commands = .ok r :=
  settle_eq_ok.2 (Or.inl ⟨h, rfl⟩)

theorem Behind.settle (h : r.Behind commands name kind parameters) :
    r.settle commands = .ok (r.endCommand name kind parameters) :=
  settle_eq_ok.2 (Or.inr (Or.inr ⟨name, kind, parameters, h, rfl⟩))

/-- A reader that has settled reads text. -/
theorem mode_of_settle (h : r.settle commands = .ok s) : s.mode = .text := by
  rcases settle_eq_ok.1 h with ⟨hm, rfl⟩ | ⟨-, rfl⟩ | ⟨name, kind, parameters, -, rfl⟩
  · exact hm
  · rfl
  · rfl

/-! ## Single steps -/

/-- A character that goes on with nothing is read as text. -/
theorem step_of_settle (h : r.settle commands = .ok s) (hc : ¬ r.mode.Takes c) :
    r.step commands c = .ok { s.readText c with offset := r.offset + c.utf8Size } := by
  suffices hread : r.read commands c = .ok (s.readText c) by
    simp [step, hread, bind, Except.bind, pure, Except.pure]
  rcases settle_eq_ok.1 h with ⟨hm, rfl⟩ | ⟨hm, rfl⟩ | ⟨name, kind, parameters, hbehind, rfl⟩
  · simp [read, hm, pure, Except.pure]
  · have hname : isNameChar c = false := by simpa [hm, Mode.Takes] using hc
    simp [read, hm, hname, pure, Except.pure]
  · rcases hbehind with ⟨hm, hk⟩ | ⟨hm⟩
    · have hno : isNameChar c = false ∧ c ≠ '{' := by simpa [hm, Mode.Takes] using hc
      simp [read, hm, hno, hk, readCommand, bind, Except.bind, pure, Except.pure]
    · have hno : c ≠ '{' := by simpa [hm, Mode.Takes] using hc
      simp [read, hm, hno, readCommand, pure, Except.pure]

theorem step_start (hm : r.mode = .backslash) (hc : isNameChar c) : r.step commands c =
    .ok { r with mode := .name (String.singleton c), offset := r.offset + c.utf8Size } := by
  simp [step, read, hm, hc, bind, Except.bind, pure, Except.pure]

theorem step_letter {letters : String} (hm : r.mode = .name letters) (hc : isNameChar c) :
    r.step commands c =
      .ok { r with mode := .name (letters.push c), offset := r.offset + c.utf8Size } := by
  simp [step, read, hm, hc, bind, Except.bind, pure, Except.pure]

theorem step_group (h : r.Behind commands name kind parameters) : r.step commands '\x7b' =
    .ok {
      mode := .text
      passage := {}
      groups := { offset := r.offset, name, kind, parameters, outer := r.passage } :: r.groups
      offset := r.offset + Char.utf8Size '\x7b' } := by
  have hopen := not_isNameChar_open
  rcases h with ⟨hm, hk⟩ | ⟨hm⟩
  · simp [step, read, hm, hopen, hk, readCommand, bind, Except.bind, pure, Except.pure]
  · simp [step, read, hm, readCommand, bind, Except.bind, pure, Except.pure]

/-- Reading a character fails where it ends an unknown name, and nowhere else. -/
theorem step_eq_error {cause : Cause} (h : r.step commands c = .error cause) :
    ∃ letters, r.mode = .name letters ∧ isNameChar c = false ∧
      commands.kind letters = .error cause := by
  rcases hm : r.mode with _ | _ | letters | ⟨name, kind, parameters⟩
  case name =>
    by_cases hc : isNameChar c
    · rw [step_letter hm hc] at h
      cases h
    · rcases hk : commands.kind letters with e | kind
      · simp [step, read, hm, hc, hk, bind, Except.bind] at h
        exact ⟨letters, rfl, by simpa using hc, h ▸ hk⟩
      · simp [step, read, hm, hc, hk, bind, Except.bind, pure, Except.pure] at h
  case backslash =>
    by_cases hc : isNameChar c <;>
      simp [step, read, hm, hc, bind, Except.bind, pure, Except.pure] at h
  all_goals simp [step, read, hm, bind, Except.bind, pure, Except.pure] at h

/-- **What reading a character has done.** -/
theorem reads_of_step (h : r.step commands c = .ok r') :
    ∃ next, r.Reads commands c next ∧ r' = { next with offset := r.offset + c.utf8Size } := by
  have hgroup : ∀ {name kind parameters}, r.Behind commands name kind parameters → c = '\x7b' →
      ∃ next, r.Reads commands c next ∧ r' = { next with offset := r.offset + c.utf8Size } := by
    rintro name kind parameters hbehind rfl
    rw [step_group hbehind] at h
    cases h
    exact ⟨_, .group hbehind rfl, rfl⟩
  have htext : ∀ {s}, r.settle commands = .ok s → ¬ r.mode.Takes c →
      ∃ next, r.Reads commands c next ∧ r' = { next with offset := r.offset + c.utf8Size } := by
    intro s hs hc
    rw [step_of_settle hs hc] at h
    cases h
    exact ⟨_, .text hc hs (readsText_readText s c), rfl⟩
  rcases hm : r.mode with _ | _ | letters | ⟨name, kind, parameters⟩
  · exact htext (settle_of_text hm) (by simp [hm, Mode.Takes])
  · by_cases hc : isNameChar c
    · rw [step_start hm hc] at h
      cases h
      exact ⟨_, .start hm hc, rfl⟩
    · exact htext (settle_eq_ok.2 (Or.inr (Or.inl ⟨hm, rfl⟩))) (by simpa [hm, Mode.Takes] using hc)
  · by_cases hc : isNameChar c
    · rw [step_letter hm hc] at h
      cases h
      exact ⟨_, .letter hm hc, rfl⟩
    · rcases hk : commands.kind letters with e | kind
      · simp [step, read, hm, hc, hk, bind, Except.bind] at h
      · by_cases hopen : c = '\x7b'
        · exact hgroup (.name hm hk) hopen
        · exact htext (Behind.name hm hk).settle (by simp [hm, Mode.Takes, hc, hopen])
  · by_cases hopen : c = '\x7b'
    · exact hgroup (.command hm) hopen
    · exact htext (Behind.command hm).settle (by simpa [hm, Mode.Takes] using hopen)

/-! ## Runs -/

/-- What holds at the start and is kept by every character holds of the state behind a text. -/
theorem run_induction {I : List Char → Reader → Prop} {cs u : List Char}
    (h : cs.foldlM (step commands) r = .ok r') (hr : I u r)
    (hstep : ∀ {u r c next}, I u r → r.Reads commands c next →
      I (u ++ [c]) { next with offset := r.offset + c.utf8Size }) : I (u ++ cs) r' := by
  induction cs generalizing u r with
  | nil => cases h; simpa using hr
  | cons c cs ih =>
    rw [List.foldlM_cons] at h
    rcases hs : r.step commands c with e | r₁
    · simp [hs, bind, Except.bind] at h
    · rw [hs] at h
      obtain ⟨next, hreads, rfl⟩ := reads_of_step hs
      simpa using ih h (hstep hr hreads)

/-- The character after a backslash begins a name, and further ones go on with it; a group that is
    closed gives a parameter. -/
theorem Reads.isBegun {next : Reader} (h : r.Reads commands c next) (hr : r.mode.IsBegun) :
    next.mode.IsBegun := by
  cases h with
  | start _ hc =>
    refine ⟨fun hempty => ?_, fun c' hc' => ?_⟩
    · simpa using congrArg String.toList hempty
    · rw [String.toList_singleton, List.mem_singleton] at hc'
      exact hc' ▸ hc
  | letter hm hc =>
    rw [hm] at hr
    refine ⟨fun hempty => ?_, fun c' hc' => ?_⟩
    · simpa using congrArg String.toList hempty
    · rw [String.toList_push, List.mem_append, List.mem_singleton] at hc'
      rcases hc' with hc' | rfl
      · exact hr.2 c' hc'
      · exact hc
  | group => trivial
  | text _ hs htext =>
    cases htext with
    | backslash | literal => trivial
    | bar => rw [mode_of_settle hs]; trivial
    | close => simp [Mode.IsBegun]

theorem foldlM_cons_of_step {cs : List Char} (h : r.step commands c = .ok r') :
    (c :: cs).foldlM (step commands) r = cs.foldlM (step commands) r' := by
  rw [List.foldlM_cons, h]; rfl

theorem foldlM_append_of_ok {cs cs' : List Char} (h : cs.foldlM (step commands) r = .ok r') :
    (cs ++ cs').foldlM (step commands) r = cs'.foldlM (step commands) r' := by
  rw [List.foldlM_append, h]; rfl

end Reader

/-! ## Whole texts -/

/-- A text is read if all its characters are and no group is open at the end. -/
theorem parse_eq_ok {commands : Commands} {source : String} {inlines : List Inline} :
    parse commands source = .ok inlines ↔ ∃ r s,
      source.toList.foldlM (Reader.step commands) {} = .ok r ∧ r.settle commands = .ok s ∧
        s.groups = [] ∧ s.passage.close = inlines := by
  rcases hr : source.toList.foldlM (Reader.step commands) {} with e | r
  · simp [parse, hr, bind, Except.bind]
  rcases hs : r.settle commands with e | s
  · simp [parse, hr, Reader.finish, hs, bind, Except.bind]
  rcases hg : s.groups with _ | ⟨group, outer⟩ <;>
    simp [parse, hr, Reader.finish, hs, hg, bind, Except.bind, pure, Except.pure, throw, throwThe,
      MonadExceptOf.throw]

/-- A text with an open group is not read; the innermost one is reported. -/
theorem parse_eq_error {commands : Commands} {source : String} {r s : Reader} {group : Group}
    {outer : List Group} (hr : source.toList.foldlM (Reader.step commands) {} = .ok r)
    (hs : r.settle commands = .ok s) (hg : s.groups = group :: outer) :
    parse commands source = .error (.parse source group.offset
      s!"unterminated parameter group for the command \\{group.name}") := by
  simp [parse, hr, Reader.finish, hs, hg, bind, Except.bind, throw, throwThe, MonadExceptOf.throw]

end Rubric.Markup
