/-
  Rubric — the command that an error comes from.

  A command fails itself, or it inserts a definition whose pass fails; it is
  known which one by where it stands and by what was executed before it.

  * `Engine.Bare`: errors of a computation arise in it, behind no frame;
  * `Invocation.LooksUp`: the definition that a command looks up to insert it;
    `Invocation.error_of_run`: whatever else a command does is bare;
  * `Invocation.Executes`, `Inline.Begins`: where the execution of a command in
    a text begins, with the names of the commands that it is nested in;
  * `Invocation.Raises`, `Invocation.Inserts`: what a command does then;
  * **`Inline.blamed_of_executeList`**: an error in a text comes from a command
    that raises it, or that inserts a definition it comes from.
-/
import Rubric.Proofs.Execution

namespace Rubric

open Text

/-! ## Bare computations -/

theorem Error.eq_ofCause {e : Error} (h : e.frames = []) : e = .ofCause e.cause := by
  obtain ⟨cause, frames⟩ := e
  cases h
  rfl

namespace Engine

variable {α β : Type}

/-- An error of a sequence comes from its second part, or from the first one. -/
theorem gives_bind_error {x : Engine α} {f : α → Engine β} {e : Error} {c c' : Context} :
    (x >>= f).Gives c (.error e) c' ↔
      (∃ a c₁, x.Gives c (.ok a) c₁ ∧ (f a).Gives c₁ (.error e) c') ∨ x.Gives c (.error e) c' := by
  simp [gives_bind]

/-- What yields a value at once does not fail: an error comes from what is before it. -/
theorem error_of_bind_pure {x : Engine α} {f : α → Engine β} {e : Error} {c c' : Context}
    (h : (x >>= f).Gives c (.error e) c') (hf : ∀ a, ∃ b, f a = pure b) :
    x.Gives c (.error e) c' := by
  rcases gives_bind_error.1 h with ⟨a, c₁, -, h⟩ | h
  · obtain ⟨b, hb⟩ := hf a
    rw [hb] at h
    cases (gives_pure.1 h).1
  · exact h

/-- Every error of the computation arises in it: it is behind no frame. -/
def Bare (x : Engine α) : Prop :=
  ∀ c e c', x.Gives c (.error e) c' → e.frames = []

namespace Bare

theorem pure (a : α) : (pure a : Engine α).Bare := by
  intro c e c' h
  cases (gives_pure.1 h).1

theorem get : (get : Engine Context).Bare := by
  intro c e c' h
  cases (gives_get.1 h).1

theorem set (c : Context) : (set c : Engine PUnit).Bare := by
  intro c e c' h
  cases (gives_set.1 h).1

theorem modify (f : Context → Context) : (modify f : Engine PUnit).Bare := by
  intro c e c' h
  cases (gives_modify.1 h).1

theorem fail (cause : Cause) : (fail cause : Engine α).Bare := by
  intro c e c' h
  cases (gives_fail.1 h).1
  rfl

theorem ofOption (o : Option α) : (ofOption o).Bare := by
  intro c e c' h
  obtain ⟨_, -, he, -⟩ := gives_ofOption.1 h
  cases he

theorem ofExcept (x : Except Cause α) : (ofExcept x).Bare := by
  cases x with
  | ok a => exact .pure a
  | error cause => exact .fail cause

theorem bind {x : Engine α} {f : α → Engine β} (hx : x.Bare) (hf : ∀ a, (f a).Bare) :
    (x >>= f).Bare := by
  intro c e c' h
  rcases gives_bind_error.1 h with ⟨a, c₁, -, h⟩ | h
  · exact hf a _ _ _ h
  · exact hx _ _ _ h

theorem definition (id : DefinitionId) : (definition id).Bare :=
  .bind .get fun _ => .ofOption _

theorem text (i : Inline) : (text i).Bare :=
  .bind .get fun _ => .ofOption _

theorem normalize (segments : List Segment) : (normalize segments).Bare :=
  .bind .get fun _ => .bind (.set _) fun _ => .pure _

theorem normalizedText (enclosing : Tags) (i : Inline) : (normalizedText enclosing i).Bare :=
  .bind .get fun _ => .bind (.ofOption _) fun _ => .normalize _

end Bare

/-- The error of a computation behind a frame is one of the computation. -/
theorem gives_within_error {frame : Frame} {x : Engine α} {e : Error} {c c' : Context}
    (h : (within frame x).Gives c (.error e) c') :
    ∃ e₁, x.Gives c (.error e₁) c' ∧ e = e₁.within frame := by
  obtain ⟨r₁, hx, hr⟩ := gives_within.1 h
  rcases r₁ with e₁ | a <;> cases hr
  exact ⟨e₁, hx, rfl⟩

theorem gives_text_bind {i : Inline} {f : String → Engine α} {c c' : Context}
    {r : Except Error α} :
    (text i >>= f).Gives c r c' ↔ ∃ s, c.inlineText? i = some s ∧ (f s).Gives c r c' := by
  rw [text, bind_assoc, gives_get_bind, gives_ofOption_bind]

end Engine

/-! ## What commands do -/

namespace Invocation

open Engine

variable {handle : DefinitionId → Engine Unit} {call : Invocation} {c c' : Context}

theorem bare_insertBoolean : call.insertBoolean.Bare := by
  refine .bind (.bind .get fun _ => .pure _) fun found => ?_
  refine .bind (.bind .get fun c => ?_) fun target => .bind (.modify _) fun _ => .pure _
  have hmake : ∀ key value, (insertBoolean.make key value).Bare := by
    intro key value c e c' h
    cases (gives_modifyGet.1 h).1
  split
  · split
    · exact .pure _
    · exact hmake _ _
  · exact hmake _ _

theorem bare_addFootnote (ps : List Inline) : (call.addFootnote ps).Bare := by
  have hnote : ∀ annotated body, (addFootnote.note call annotated body).Bare := fun _ _ =>
    .bind (.modify _) fun _ => .bind .get fun _ => .pure _
  rcases ps with _ | ⟨a, _ | ⟨b, _ | _⟩⟩
  case cons.nil => exact hnote _ _
  case cons.cons.nil => exact hnote _ _
  all_goals exact .fail _

theorem bare_analyzer : call.analyzer.Bare := by
  unfold analyzer
  split
  · exact .fail _
  · refine .bind .get fun c => ?_
    split
    · exact .pure _
    · exact .fail _

theorem bare_expandAbbreviation (ps : List Inline) : (call.expandAbbreviation ps).Bare := by
  have hexpand : ∀ key keep, (expandAbbreviation.expand call key keep).Bare := by
    intro key keep
    refine .bind bare_analyzer fun analyzer => ?_
    split
    · exact .pure _
    · exact .fail _
  rcases ps with _ | ⟨a, _ | ⟨b, _ | _⟩⟩
  case cons.nil => exact .bind (.text a) fun _ => hexpand _ _
  case cons.cons.nil =>
    refine .bind (.text b) fun keep => ?_
    split
    · exact .bind (.text a) fun _ => hexpand _ _
    · exact .fail _
  all_goals exact .fail _

theorem bare_transcribe (ps : List Inline) : (call.transcribe ps).Bare := by
  rcases ps with _ | ⟨a, _ | _⟩
  case cons.nil =>
    exact .bind (.normalizedText _ a) fun _ => .bind bare_analyzer fun _ => .pure _
  all_goals exact .fail _

theorem bare_languageOf (tag : String) : (call.languageOf tag).Bare := by
  unfold languageOf
  split
  · exact .pure _
  · exact .fail _

theorem bare_transliterate (ps : List Inline) : (call.transliterate ps).Bare := by
  have hwrite : ∀ tag text separator, (transliterate.write call tag text separator).Bare := by
    intro tag text separator
    refine .bind (bare_languageOf tag) fun target => .bind .get fun c => ?_
    refine .bind bare_analyzer fun analyzer => ?_
    split
    · exact .pure _
    · exact .fail _
  rcases ps with _ | ⟨a, _ | ⟨b, _ | ⟨d, _ | _⟩⟩⟩
  case cons.cons.nil =>
    exact .bind (.text a) fun _ => .bind (.normalizedText _ b) fun _ => hwrite _ _ _
  case cons.cons.cons.nil =>
    refine .bind (.text a) fun _ => .bind (.normalizedText _ b) fun _ => ?_
    exact .bind (.text d) fun _ => hwrite _ _ _
  all_goals exact .fail _

theorem bare_conditionValue (i : Inline) : (call.conditionValue i).Bare := by
  refine .bind ?_ fun found => ?_
  · unfold conditionValue.booleanOf
    split
    · exact .pure _
    · refine .bind (.definition _) fun d => ?_
      split <;> exact .pure _
  · split
    · exact .pure _
    · refine .bind (.text i) fun text => ?_
      split
      · exact .pure _
      · exact .fail _

/-- The command, with its parameters executed, looks the definition up to insert it: under the
    text of its parameter, or for lines with an empty separator the one that separates them. -/
inductive LooksUp (call : Invocation) (c : Context) :
    CommandKind → List Inline → DefinitionId → Prop
  | definition {p : Inline} {key : String} {target : DefinitionId} :
      c.inlineText? p = some key → c.lookup? (trim key) call.scope.document = some target →
      LooksUp call c .definition [p] target
  | separator {separator : Inline} {lines : List Inline} {target : DefinitionId} :
      c.inlineText? separator = some "" →
      c.lookup? separatorKey call.scope.document = some target →
      LooksUp call c .lines (separator :: lines) target

/-- The command, with its parameters executed, inserts the definition it looks up, and the pass of
    that definition ends with the error. -/
def PassesOn (handle : DefinitionId → Engine Unit) (call : Invocation) (kind : CommandKind)
    (ps : List Inline) (c : Context) (e : Error) (c' : Context) : Prop :=
  ∃ target, call.LooksUp c kind ps target ∧
    (handle target).Gives (c.addReference target call.scope.owner) (.error e) c'

theorem error_of_insertDefinition {ps : List Inline} {e : Error}
    (h : (call.insertDefinition handle ps).Gives c (.error e) c') :
    e.frames = [] ∨ call.PassesOn handle .definition ps c e c' := by
  rcases ps with _ | ⟨p, _ | _⟩
  case cons.nil =>
    rw [insertDefinition, gives_text_bind] at h
    obtain ⟨key, hkey, h⟩ := h
    dsimp only at h
    rw [gives_get_bind] at h
    rcases gives_bind_error.1 h with ⟨target, c₁, hlookup, hrest⟩ | hlookup
    · obtain ⟨hl, rfl⟩ := gives_ofExcept_ok.1 hlookup
      rw [gives_use_bind, gives_definition_bind] at hrest
      obtain ⟨d, -, hrest⟩ := hrest
      split at hrest
      · refine Or.inl (Bare.bind .get (fun c => ?_) _ _ _ hrest)
        split
        · exact .pure _
        · exact .fail _
      · have hhandle := error_of_bind_pure hrest fun _ => ⟨_, rfl⟩
        exact Or.inr ⟨target, .definition hkey (Context.lookup?_of_lookup hl), hhandle⟩
    · exact Or.inl (Bare.ofExcept _ _ _ _ hlookup)
  all_goals exact Or.inl (Bare.fail _ _ _ _ h)

theorem error_of_joinLines {ps : List Inline} {e : Error}
    (h : (call.joinLines handle ps).Gives c (.error e) c') :
    e.frames = [] ∨ call.PassesOn handle .lines ps c e c' := by
  rcases ps with _ | ⟨separator, lines⟩
  · exact Or.inl (Bare.fail _ _ _ _ h)
  rw [joinLines, gives_text_bind] at h
  obtain ⟨s, hs, h⟩ := h
  dsimp only at h
  split at h
  · rename_i hempty
    obtain rfl := String.isEmpty_iff.1 hempty
    have hdefault := error_of_bind_pure h fun _ => ⟨_, rfl⟩
    rw [defaultSeparator, gives_lookup?_bind] at hdefault
    rcases hl : c.lookup? separatorKey call.scope.document with _ | target
    · simp only [hl] at hdefault
      exact Or.inl (Bare.bind .get (fun _ => .pure _) _ _ _ hdefault)
    simp only [hl, gives_use_bind, gives_definition_bind] at hdefault
    obtain ⟨d, -, hrest⟩ := hdefault
    split at hrest
    · exact Or.inl (Bare.bind .get (fun _ => .pure _) _ _ _ hrest)
    · rcases gives_bind_error.1 hrest with ⟨_, c₁, -, htext⟩ | hhandle
      · refine Or.inl (Bare.bind .get (fun _ => ?_) _ _ _ htext)
        exact .bind (.ofOption _) fun _ => .bind (.normalize _) fun _ => .pure _
      · exact Or.inr ⟨target, .separator hs hl, hhandle⟩
  · exact Or.inl (Bare.bind (.pure _) (fun _ => .pure _) _ _ _ h)

/-- An error of a command arises in it, or it comes from the definition that is inserted. -/
theorem error_of_run {kind : CommandKind} {ps : List Inline} {e : Error}
    (h : (call.run handle kind ps).Gives c (.error e) c') :
    e.frames = [] ∨ call.PassesOn handle kind ps c e c' := by
  cases kind with
  | definition => exact error_of_insertDefinition h
  | lines => exact error_of_joinLines h
  | boolean => exact Or.inl (bare_insertBoolean _ _ _ h)
  | footnote => exact Or.inl (bare_addFootnote _ _ _ _ h)
  | abbreviation => exact Or.inl (bare_expandAbbreviation _ _ _ _ h)
  | ipaTranscribe => exact Or.inl (bare_transcribe _ _ _ _ h)
  | transliterate => exact Or.inl (bare_transliterate _ _ _ _ h)
  | ternary | language => exact Or.inl (Bare.fail _ _ _ _ h)

/-! ## Commands and their parameters -/

open Inline (execute executeList)

/-- The execution of the command from `c` comes to executing the inlines with the tags from the
    second context: those are the parameters of most commands, the condition and then a branch of
    a ternary, the tag and then the body of a language command. -/
inductive Executes (handle : DefinitionId → Engine Unit) (call : Invocation) :
    CommandKind → List Inline → Context → Tags → List Inline → Context → Prop
  | parameters {kind : CommandKind} {ps : List Inline} {c : Context} :
      kind.resolvesOwnParameters = false → Executes handle call kind ps c call.tags ps c
  | condition {condition yes no : Inline} {c : Context} :
      Executes handle call .ternary [condition, yes, no] c call.tags [condition] c
  | branch {condition yes no condition' : Inline} {notes : List Footnote} {value : Bool}
      {c c₁ : Context} :
      (execute handle call.scope call.tags condition).Gives c (.ok (condition', notes)) c₁ →
      (call.conditionValue condition').Gives c₁ (.ok value) c₁ →
      Executes handle call .ternary [condition, yes, no] c call.tags [if value then yes else no] c₁
  | tag {tag body : Inline} {c : Context} :
      Executes handle call .language [tag, body] c call.tags [tag] c
  | body {tag body tag' : Inline} {notes : List Footnote} {s : String} {language : Language}
      {c c₁ : Context} :
      (execute handle call.scope call.tags tag).Gives c (.ok (tag', notes)) c₁ →
      c₁.inlineText? tag' = some s → Language.read? s = some language →
      Executes handle call .language [tag, body] c { call.tags with language := some language }
        [body] c₁

/-- What is executed for a command are parameters of it. -/
theorem Executes.subset {kind : CommandKind} {ps l : List Inline} {tags : Tags}
    (h : Executes handle call kind ps c tags l c') : l ⊆ ps := by
  cases h with
  | parameters => exact List.Subset.refl ps
  | condition | tag => simp
  | @branch _ _ _ _ _ value => cases value <;> simp
  | body => simp

/-- The execution of the command from `c` comes to an error with the cause that arises in the
    command itself. -/
inductive Raises (handle : DefinitionId → Engine Unit) (call : Invocation) :
    CommandKind → List Inline → Context → Cause → Prop
  | run {kind : CommandKind} {ps ps' : List Inline} {notes : List Footnote} {c c₁ c₂ : Context}
      {cause : Cause} :
      kind.resolvesOwnParameters = false →
      (executeList handle call.scope call.tags ps).Gives c (.ok (ps', notes)) c₁ →
      (call.run handle kind ps').Gives c₁ (.error (.ofCause cause)) c₂ →
      Raises handle call kind ps c cause
  | condition {condition yes no condition' : Inline} {notes : List Footnote} {c c₁ c₂ : Context}
      {cause : Cause} :
      (execute handle call.scope call.tags condition).Gives c (.ok (condition', notes)) c₁ →
      (call.conditionValue condition').Gives c₁ (.error (.ofCause cause)) c₂ →
      Raises handle call .ternary [condition, yes, no] c cause
  | tag {tag body tag' : Inline} {notes : List Footnote} {s : String} {c c₁ c₂ : Context}
      {cause : Cause} :
      (execute handle call.scope call.tags tag).Gives c (.ok (tag', notes)) c₁ →
      c₁.inlineText? tag' = some s →
      (call.languageOf s).Gives c₁ (.error (.ofCause cause)) c₂ →
      Raises handle call .language [tag, body] c cause
  | ternaryCount {ps : List Inline} {c : Context} : ps.length ≠ 3 →
      Raises handle call .ternary ps c (.wrongCount call.name "exactly 3" ps.length)
  | languageCount {ps : List Inline} {c : Context} : ps.length ≠ 2 →
      Raises handle call .language ps c (.wrongCount call.name "exactly 2" ps.length)

/-- The execution of the command from `c` comes to the command pass of a definition from the second
    context: the command has looked the definition up to insert it, and uses it. -/
def Inserts (handle : DefinitionId → Engine Unit) (call : Invocation) (kind : CommandKind)
    (ps : List Inline) (c : Context) (target : DefinitionId) (c' : Context) : Prop :=
  ∃ ps' notes c₁, (executeList handle call.scope call.tags ps).Gives c (.ok (ps', notes)) c₁ ∧
    call.LooksUp c₁ kind ps' target ∧ c' = c₁.addReference target call.scope.owner

end Invocation

/-! ## Texts -/

namespace Inline

open Engine

/-- The execution of the inlines from `c` comes to that of a command from the second context; the
    names are those of the commands it is nested in, each in a parameter of the one before, and in
    the end its own. -/
inductive Begins (handle : DefinitionId → Engine Unit) (scope : Scope) :
    Tags → List Inline → Context → List String → Invocation → CommandKind → List Inline →
      Context → Prop
  | here {tags own : Tags} {l ps : List Inline} {name : String} {kind : CommandKind}
      {c : Context} :
      Begins handle scope tags (.command name kind ps own .pending :: l) c [name]
        { name, scope, tags := own.inherit tags } kind ps c
  | later {tags : Tags} {i i' : Inline} {l ps : List Inline} {notes : List Footnote}
      {names : List String} {call : Invocation} {kind : CommandKind} {c c₁ c₂ : Context} :
      (execute handle scope tags i).Gives c (.ok (i', notes)) c₁ →
      Begins handle scope tags l c₁ names call kind ps c₂ →
      Begins handle scope tags (i :: l) c names call kind ps c₂
  | span {tags own : Tags} {l l' ps : List Inline} {names : List String} {call : Invocation}
      {kind : CommandKind} {c c₁ : Context} :
      Begins handle scope (own.inherit tags) l' c names call kind ps c₁ →
      Begins handle scope tags (.span l' own :: l) c names call kind ps c₁
  | parameter {tags own tags' : Tags} {l l' outer ps : List Inline} {name : String}
      {names : List String} {call : Invocation} {kind kind' : CommandKind}
      {c c₁ c₂ : Context} :
      Invocation.Executes handle { name, scope, tags := own.inherit tags } kind outer c tags' l'
        c₁ →
      Begins handle scope tags' l' c₁ names call kind' ps c₂ →
      Begins handle scope tags (.command name kind outer own .pending :: l) c (name :: names) call
        kind' ps c₂

/-- The error, behind the frames of nested commands in the inlines, is raised by the last of these
    commands, or comes from a definition that it inserts. -/
inductive Blames (handle : DefinitionId → Engine Unit) (scope : Scope) (tags : Tags)
    (l : List Inline) (c : Context) : Error → Context → Prop
  | raised {names : List String} {call : Invocation} {kind : CommandKind} {ps : List Inline}
      {cause : Cause} {c₁ c' : Context} :
      Begins handle scope tags l c names call kind ps c₁ →
      call.Raises handle kind ps c₁ cause →
      Blames handle scope tags l c { cause, frames := names.map .command } c'
  | inserted {names : List String} {call : Invocation} {kind : CommandKind} {ps : List Inline}
      {target : DefinitionId} {e : Error} {c₁ c₂ c' : Context} :
      Begins handle scope tags l c names call kind ps c₁ →
      call.Inserts handle kind ps c₁ target c₂ →
      (handle target).Gives c₂ (.error e) c' →
      Blames handle scope tags l c { e with frames := names.map .command ++ e.frames } c'

variable {handle : DefinitionId → Engine Unit} {scope : Scope} {tags own : Tags}
  {l : List Inline} {c c₁ c' : Context} {e : Error}

namespace Blames

theorem later {i i' : Inline} {notes : List Footnote}
    (hi : (execute handle scope tags i).Gives c (.ok (i', notes)) c₁)
    (h : Blames handle scope tags l c₁ e c') : Blames handle scope tags (i :: l) c e c' := by
  cases h with
  | raised hbegins hraises => exact .raised (.later hi hbegins) hraises
  | inserted hbegins hinserts hends => exact .inserted (.later hi hbegins) hinserts hends

theorem span {l' : List Inline} (h : Blames handle scope (own.inherit tags) l' c e c') :
    Blames handle scope tags (.span l' own :: l) c e c' := by
  cases h with
  | raised hbegins hraises => exact .raised (.span hbegins) hraises
  | inserted hbegins hinserts hends => exact .inserted (.span hbegins) hinserts hends

/-- An error in what is executed for a command passes through the command's frame. -/
theorem parameter {name : String} {kind : CommandKind} {ps l' : List Inline} {tags' : Tags}
    (hexecutes : Invocation.Executes handle { name, scope, tags := own.inherit tags } kind ps c
      tags' l' c₁)
    (h : Blames handle scope tags' l' c₁ e c') :
    Blames handle scope tags (.command name kind ps own .pending :: l) c
      (e.within (.command name)) c' := by
  cases h with
  | raised hbegins hraises => exact .raised (.parameter hexecutes hbegins) hraises
  | inserted hbegins hinserts hends => exact .inserted (.parameter hexecutes hbegins) hinserts hends

/-- An error that arises in a command passes through the command's frame. -/
theorem bare {name : String} {kind : CommandKind} {ps : List Inline} (hbare : e.frames = [])
    (h : Invocation.Raises handle { name, scope, tags := own.inherit tags } kind ps c e.cause) :
    Blames handle scope tags (.command name kind ps own .pending :: l) c
      (e.within (.command name)) c' := by
  rw [Error.eq_ofCause hbare]
  exact .raised .here h

end Blames

/-- An error in inlines comes from one of them. -/
theorem blamed_of_each (hl : ∀ i ∈ l, ∀ {tags c e c'} rest,
      (execute handle scope tags i).Gives c (.error e) c' →
        Blames handle scope tags (i :: rest) c e c')
    (h : (executeList handle scope tags l).Gives c (.error e) c') :
    Blames handle scope tags l c e c' := by
  induction l generalizing c with
  | nil =>
    rw [executeList] at h
    cases (gives_pure.1 h).1
  | cons i l ih =>
    rw [executeList] at h
    rcases gives_bind_error.1 h with ⟨⟨i', notes⟩, c₁, hi, hrest⟩ | hi
    · have hrest := error_of_bind_pure hrest fun _ => ⟨_, rfl⟩
      exact .later hi (ih (fun j hj => hl j (by simp [hj])) hrest)
    · exact hl i (by simp) l hi

section
variable {name : String} {kind : CommandKind} {ps rest : List Inline}

/-- An error of a command whose parameters are executed first. -/
theorem blamed_of_command (ho : kind.resolvesOwnParameters = false)
    (ih : ∀ i ∈ ps, ∀ {tags c e c'} rest, (execute handle scope tags i).Gives c (.error e) c' →
      Blames handle scope tags (i :: rest) c e c')
    (h : (execute handle scope tags (.command name kind ps own .pending)).Gives c (.error e) c') :
    Blames handle scope tags (.command name kind ps own .pending :: rest) c e c' := by
  rw [execute_command ps own ho] at h
  obtain ⟨e, hown, rfl⟩ := gives_within_error h
  rcases gives_bind_error.1 hown with ⟨⟨ps', notes⟩, c₁, hps, hrest⟩ | hps
  · have hrun := error_of_bind_pure hrest fun _ => ⟨_, rfl⟩
    rcases Invocation.error_of_run hrun with hbare | ⟨target, hl, hends⟩
    · rw [Error.eq_ofCause hbare] at hrun
      exact .bare hbare (.run ho hps hrun)
    · exact .inserted .here ⟨ps', notes, c₁, hps, hl, rfl⟩ hends
  · exact .parameter (.parameters ho) (blamed_of_each ih hps)

/-- An error of a ternary: of its condition, of the value of the condition, or of a branch. -/
theorem blamed_of_ternary {condition yes no : Inline}
    (ih : ∀ i ∈ [condition, yes, no], ∀ {tags c e c'} rest,
      (execute handle scope tags i).Gives c (.error e) c' →
        Blames handle scope tags (i :: rest) c e c')
    (h : (execute handle scope tags
      (.command name .ternary [condition, yes, no] own .pending)).Gives c (.error e) c') :
    Blames handle scope tags (.command name .ternary [condition, yes, no] own .pending :: rest) c e
      c' := by
  rw [execute] at h
  obtain ⟨e, hown, rfl⟩ := gives_within_error h
  rcases gives_bind_error.1 hown with ⟨⟨condition', notes⟩, c₁, hcondition, hrest⟩ | hcondition
  · rcases gives_bind_error.1 hrest with ⟨value, c₂, hvalue, hbranch⟩ | hvalue
    · obtain ⟨rfl, -⟩ := Invocation.gives_conditionValue_ok hvalue
      have hbranch : (execute handle scope (own.inherit tags) (if value then yes else no)).Gives c₂
          (.error e) c' := by
        cases value
        all_goals exact error_of_bind_pure hbranch fun _ => ⟨_, rfl⟩
      refine .parameter (.branch hcondition hvalue) (ih _ ?_ [] hbranch)
      cases value <;> simp
    · have hbare := Invocation.bare_conditionValue _ _ _ _ hvalue
      rw [Error.eq_ofCause hbare] at hvalue
      exact .bare hbare (.condition hcondition hvalue)
  · exact .parameter .condition (ih condition (by simp) [] hcondition)

/-- An error of a language command: of its tag, of the language of the tag, or of its body. -/
theorem blamed_of_language {tag body : Inline}
    (ih : ∀ i ∈ [tag, body], ∀ {tags c e c'} rest,
      (execute handle scope tags i).Gives c (.error e) c' →
        Blames handle scope tags (i :: rest) c e c')
    (h : (execute handle scope tags
      (.command name .language [tag, body] own .pending)).Gives c (.error e) c') :
    Blames handle scope tags (.command name .language [tag, body] own .pending :: rest) c e
      c' := by
  rw [execute] at h
  obtain ⟨e, hown, rfl⟩ := gives_within_error h
  rcases gives_bind_error.1 hown with ⟨⟨tag', notes⟩, c₁, htag, hrest⟩ | htag
  · dsimp only at hrest
    rw [gives_text_bind] at hrest
    obtain ⟨s, hs, hrest⟩ := hrest
    rcases gives_bind_error.1 hrest with ⟨language, c₂, hlanguage, hend⟩ | hlanguage
    · obtain ⟨hread, rfl⟩ := Invocation.gives_languageOf_ok hlanguage
      have hbody := error_of_bind_pure hend fun _ => ⟨_, rfl⟩
      exact .parameter (.body htag hs hread) (ih body (by simp) [] hbody)
    · have hbare := Invocation.bare_languageOf _ _ _ _ hlanguage
      rw [Error.eq_ofCause hbare] at hlanguage
      exact .bare hbare (.tag htag hs hlanguage)
  · exact .parameter .tag (ih tag (by simp) [] htag)

/-- An error of a command that executes its parameters itself. -/
theorem blamed_of_ownParameters (ho : kind.resolvesOwnParameters = true)
    (ih : ∀ i ∈ ps, ∀ {tags c e c'} rest, (execute handle scope tags i).Gives c (.error e) c' →
      Blames handle scope tags (i :: rest) c e c')
    (h : (execute handle scope tags (.command name kind ps own .pending)).Gives c (.error e) c') :
    Blames handle scope tags (.command name kind ps own .pending :: rest) c e c' := by
  cases kind <;> simp [CommandKind.resolvesOwnParameters] at ho
  case ternary =>
    rcases ps with _ | ⟨a, _ | ⟨b, _ | ⟨d, _ | _⟩⟩⟩
    case cons.cons.cons.nil => exact blamed_of_ternary ih h
    all_goals
      rw [execute, Invocation.wrongCount] at h
      · obtain ⟨e, hown, rfl⟩ := gives_within_error h
        cases (gives_fail.1 hown).1
        exact .bare rfl (.ternaryCount (by simp))
      · simp
  case language =>
    rcases ps with _ | ⟨a, _ | ⟨b, _ | _⟩⟩
    case cons.cons.nil => exact blamed_of_language ih h
    all_goals
      rw [execute, Invocation.wrongCount] at h
      · obtain ⟨e, hown, rfl⟩ := gives_within_error h
        cases (gives_fail.1 hown).1
        exact .bare rfl (.languageCount (by simp))
      · simp

end

theorem blamed_of_execute (i : Inline) (rest : List Inline)
    (h : (execute handle scope tags i).Gives c (.error e) c') :
    Blames handle scope tags (i :: rest) c e c' := by
  induction i using induction generalizing tags c e c' rest with
  | run text own =>
    rw [execute] at h
    cases (gives_pure.1 h).1
  | span l own ih =>
    rw [execute_span] at h
    have hl := error_of_bind_pure h fun _ => ⟨_, rfl⟩
    exact .span (blamed_of_each (fun i hi _ _ _ _ rest => ih i hi rest) hl)
  | command name kind ps own evaluation ih _ =>
    by_cases hpending : evaluation = .pending
    · subst hpending
      rcases ho : kind.resolvesOwnParameters with _ | _
      · exact blamed_of_command ho (fun i hi _ _ _ _ rest => ih i hi rest) h
      · exact blamed_of_ownParameters ho (fun i hi _ _ _ _ rest => ih i hi rest) h
    · rw [execute_executed hpending] at h
      cases (gives_pure.1 h).1

/-- **An error in a text comes from a command in it.**  If the execution of inlines ends with an
    error, then that of a command in them has begun which raises the cause itself, or inserts a
    definition whose pass ends with an error of that cause; the frames of the error are those of
    the commands that it is nested in, its own, and those of the inserted definition. -/
theorem blamed_of_executeList (h : (executeList handle scope tags l).Gives c (.error e) c') :
    Blames handle scope tags l c e c' :=
  blamed_of_each (fun i _ _ _ _ _ rest => blamed_of_execute i rest) h

end Inline

end Rubric
