/-
  Rubric — what executing commands does.

  * `Permits kinds R`: the relation `R` allows each change of a context that a
    command of the given kinds may make; `execute_moves`: then execution moves
    contexts along it, whether it ends with a value or an error;
  * `Separates`, `Effects`: how a command may end with a value;
  * `Inline.ExecutionRules`: what is to be shown of each way to end with a value;
    **`ExecutionRules.inline`**: induction on the executions that end so.
-/
import Rubric.Proofs.Inline
import Rubric.Proofs.Node
import Rubric.Proofs.Engine

namespace Rubric

open Text

/-! ## What commands may change -/

/-- The relation allows what commands of these kinds do to a context in the text of a node, handling
    other nodes aside. -/
structure PermitsAt (owner : DefinitionId) (kinds : CommandKind → Prop)
    (R : Context → Context → Prop) : Prop extends Engine.Composes R where
  warn : ∀ c warnings, R c (c.warnAll warnings)
  reference : ∀ c definition, R c (c.addReference definition owner)
  number : kinds .footnote → ∀ c document, R c (c.modifyFootnotes document fun list =>
    { list with counter := list.counter + 1 })
  boolean : kinds .boolean → ∀ c value,
    R c (c.addBoolean none (if value then "True" else "False") value).2

/-- The relation allows what commands of these kinds do to a context, handling other nodes
    aside. -/
structure Permits (kinds : CommandKind → Prop) (R : Context → Context → Prop) : Prop
    extends Engine.Composes R where
  warn : ∀ c warnings, R c (c.warnAll warnings)
  reference : ∀ c definition user, R c (c.addReference definition user)
  number : kinds .footnote → ∀ c document, R c (c.modifyFootnotes document fun list =>
    { list with counter := list.counter + 1 })
  boolean : kinds .boolean → ∀ c value,
    R c (c.addBoolean none (if value then "True" else "False") value).2

section
variable {kinds : CommandKind → Prop} {R R' : Context → Context → Prop} (hR : Permits kinds R)
include hR

theorem Permits.permitsAt (owner : DefinitionId) : PermitsAt owner kinds R :=
  { hR with reference := fun c definition => hR.reference c definition owner }

/-- A wider relation allows what the relation does. -/
theorem Permits.mono (hR' : Engine.Composes R') (h : ∀ {c c'}, R c c' → R' c c') :
    Permits kinds R' where
  toComposes := hR'
  warn c warnings := h (hR.warn c warnings)
  reference c definition user := h (hR.reference c definition user)
  number hk c document := h (hR.number hk c document)
  boolean hk c value := h (hR.boolean hk c value)

theorem Permits.and (hR' : Permits kinds R') : Permits kinds fun c c' => R c c' ∧ R' c c' where
  refl c := ⟨hR.refl c, hR'.refl c⟩
  trans h h' := ⟨hR.trans h.1 h'.1, hR'.trans h.2 h'.2⟩
  warn c warnings := ⟨hR.warn c warnings, hR'.warn c warnings⟩
  reference c definition user := ⟨hR.reference c definition user, hR'.reference c definition user⟩
  number hk c document := ⟨hR.number hk c document, hR'.number hk c document⟩
  boolean hk c value := ⟨hR.boolean hk c value, hR'.boolean hk c value⟩

end

section
variable {owner : DefinitionId} {kinds : CommandKind → Prop} {R : Context → Context → Prop}

namespace Engine

variable (hR : PermitsAt owner kinds R)
include hR

theorem text_moves (i : Inline) : (text i).Moves R :=
  .bind hR.toComposes (.get hR.toComposes) fun _ => .ofOption hR.toComposes _

theorem normalize_moves (segments : List Segment) : (normalize segments).Moves R := by
  intro c r c' h
  rw [normalize, gives_get_bind, gives_set_bind] at h
  obtain ⟨-, rfl⟩ := gives_pure.1 h
  exact hR.warn c _

theorem normalizedText_moves (enclosing : Tags) (i : Inline) :
    (normalizedText enclosing i).Moves R := by
  refine .bind hR.toComposes (.get hR.toComposes) fun _ => ?_
  exact .bind hR.toComposes (.ofOption hR.toComposes _) fun _ => normalize_moves hR _

end Engine

namespace Invocation

variable (call : Invocation) (hR : PermitsAt call.scope.owner kinds R)
  {handle : DefinitionId → Engine Unit} (hh : ∀ id, (handle id).Moves R)
include hR

theorem use_moves (target : DefinitionId) : (call.use target).Moves R :=
  .modify fun c => hR.reference c target

theorem lookup?_moves (key : String) : (call.lookup? key).Moves R :=
  .bind hR.toComposes (.get hR.toComposes) fun _ => .pure hR.toComposes _

include hh in
theorem insertDefinition_moves (ps : List Inline) : (call.insertDefinition handle ps).Moves R := by
  rcases ps with _ | ⟨p, _ | _⟩
  case cons.nil =>
    refine .bind hR.toComposes (Engine.text_moves hR p) fun key => ?_
    refine .bind hR.toComposes (.get hR.toComposes) fun c => ?_
    refine .bind hR.toComposes (.ofExcept hR.toComposes _) fun target => ?_
    refine .bind hR.toComposes (call.use_moves hR target) fun _ => ?_
    refine .bind hR.toComposes (.definition hR.toComposes target) fun d => ?_
    split
    · refine .bind hR.toComposes (.get hR.toComposes) fun c => ?_
      split
      · exact .pure hR.toComposes _
      · exact .fail hR.toComposes _
    · exact .bind hR.toComposes (hh target) fun _ => .pure hR.toComposes _
  all_goals exact .fail hR.toComposes _

theorem insertBoolean_moves (hk : kinds .boolean) : call.insertBoolean.Moves R := by
  have hmake : ∀ value,
      (insertBoolean.make (if value then "True" else "False") value).Moves R := by
    intro value c r c' h
    obtain ⟨-, rfl⟩ := Engine.gives_modifyGet.1 h
    exact hR.boolean hk c value
  refine .bind hR.toComposes (call.lookup?_moves hR _) fun found => ?_
  refine .bind hR.toComposes ?_ fun target => ?_
  · refine .bind hR.toComposes (.get hR.toComposes) fun c => ?_
    split
    · split
      · exact .pure hR.toComposes _
      · exact hmake _
    · exact hmake _
  · exact .bind hR.toComposes (call.use_moves hR target) fun _ => .pure hR.toComposes _

include hh in
theorem defaultSeparator_moves : (call.defaultSeparator handle).Moves R := by
  refine .bind hR.toComposes (call.lookup?_moves hR _) fun found => ?_
  split
  · exact .bind hR.toComposes (.get hR.toComposes) fun _ => .pure hR.toComposes _
  · rename_i target
    refine .bind hR.toComposes (call.use_moves hR target) fun _ => ?_
    refine .bind hR.toComposes (.definition hR.toComposes target) fun d => ?_
    split
    · exact .bind hR.toComposes (.get hR.toComposes) fun _ => .pure hR.toComposes _
    · refine .bind hR.toComposes (hh target) fun _ => ?_
      refine .bind hR.toComposes (.get hR.toComposes) fun c => ?_
      refine .bind hR.toComposes (.ofOption hR.toComposes _) fun segments => ?_
      exact .bind hR.toComposes (Engine.normalize_moves hR segments) fun _ =>
        .pure hR.toComposes _

include hh in
theorem joinLines_moves (ps : List Inline) : (call.joinLines handle ps).Moves R := by
  rcases ps with _ | ⟨separator, lines⟩
  · exact .fail hR.toComposes _
  · refine .bind hR.toComposes (Engine.text_moves hR separator) fun s => ?_
    split
    · exact .bind hR.toComposes (call.defaultSeparator_moves hR hh) fun _ => .pure hR.toComposes _
    · exact .bind hR.toComposes (.pure hR.toComposes _) fun _ => .pure hR.toComposes _

theorem addFootnote_moves (hk : kinds .footnote) (ps : List Inline) :
    (call.addFootnote ps).Moves R := by
  have hnote : ∀ annotated body, (addFootnote.note call annotated body).Moves R := by
    intro annotated body
    refine .bind hR.toComposes (.modify fun c => hR.number hk c _) fun _ => ?_
    exact .bind hR.toComposes (.get hR.toComposes) fun _ => .pure hR.toComposes _
  rcases ps with _ | ⟨a, _ | ⟨b, _ | _⟩⟩
  case cons.nil => exact hnote _ _
  case cons.cons.nil => exact hnote _ _
  all_goals exact .fail hR.toComposes _

theorem analyzer_moves : call.analyzer.Moves R := by
  unfold analyzer
  split
  · exact .fail hR.toComposes _
  · refine .bind hR.toComposes (.get hR.toComposes) fun c => ?_
    split
    · exact .pure hR.toComposes _
    · exact .fail hR.toComposes _

theorem expandAbbreviation_moves (ps : List Inline) : (call.expandAbbreviation ps).Moves R := by
  have hexpand : ∀ key keep, (expandAbbreviation.expand call key keep).Moves R := by
    intro key keep
    refine .bind hR.toComposes (call.analyzer_moves hR) fun analyzer => ?_
    split
    · exact .pure hR.toComposes _
    · exact .fail hR.toComposes _
  rcases ps with _ | ⟨a, _ | ⟨b, _ | _⟩⟩
  case cons.nil => exact .bind hR.toComposes (Engine.text_moves hR a) fun _ => hexpand _ _
  case cons.cons.nil =>
    refine .bind hR.toComposes (Engine.text_moves hR b) fun keep => ?_
    split
    · exact .bind hR.toComposes (Engine.text_moves hR a) fun _ => hexpand _ _
    · exact .fail hR.toComposes _
  all_goals exact .fail hR.toComposes _

theorem transcribe_moves (ps : List Inline) : (call.transcribe ps).Moves R := by
  rcases ps with _ | ⟨a, _ | _⟩
  case cons.nil =>
    refine .bind hR.toComposes (Engine.normalizedText_moves hR _ a) fun _ => ?_
    exact .bind hR.toComposes (call.analyzer_moves hR) fun _ => .pure hR.toComposes _
  all_goals exact .fail hR.toComposes _

theorem languageOf_moves (tag : String) : (call.languageOf tag).Moves R := by
  unfold languageOf
  split
  · exact .pure hR.toComposes _
  · exact .fail hR.toComposes _

theorem transliterate_moves (ps : List Inline) : (call.transliterate ps).Moves R := by
  have hwrite : ∀ tag text separator, (transliterate.write call tag text separator).Moves R := by
    intro tag text separator
    refine .bind hR.toComposes (call.languageOf_moves hR tag) fun target => ?_
    refine .bind hR.toComposes (.get hR.toComposes) fun c => ?_
    refine .bind hR.toComposes (call.analyzer_moves hR) fun analyzer => ?_
    split
    · exact .pure hR.toComposes _
    · exact .fail hR.toComposes _
  rcases ps with _ | ⟨a, _ | ⟨b, _ | ⟨d, _ | _⟩⟩⟩
  case cons.cons.nil =>
    refine .bind hR.toComposes (Engine.text_moves hR a) fun _ => ?_
    exact .bind hR.toComposes (Engine.normalizedText_moves hR _ b) fun _ => hwrite _ _ _
  case cons.cons.cons.nil =>
    refine .bind hR.toComposes (Engine.text_moves hR a) fun _ => ?_
    refine .bind hR.toComposes (Engine.normalizedText_moves hR _ b) fun _ => ?_
    exact .bind hR.toComposes (Engine.text_moves hR d) fun _ => hwrite _ _ _
  all_goals exact .fail hR.toComposes _

theorem conditionValue_moves (i : Inline) : (call.conditionValue i).Moves R := by
  refine .bind hR.toComposes ?_ fun found => ?_
  · unfold conditionValue.booleanOf
    split
    · exact .pure hR.toComposes _
    · refine .bind hR.toComposes (.definition hR.toComposes _) fun d => ?_
      split <;> exact .pure hR.toComposes _
  · split
    · exact .pure hR.toComposes _
    · refine .bind hR.toComposes (Engine.text_moves hR i) fun text => ?_
      split
      · exact .pure hR.toComposes _
      · exact .fail hR.toComposes _

include hh in
/-- What a command does with its executed parameters is allowed. -/
theorem run_moves_at {kind : CommandKind} (hk : kinds kind) (ps : List Inline) :
    (call.run handle kind ps).Moves R := by
  cases kind with
  | definition => exact call.insertDefinition_moves hR hh ps
  | boolean => exact call.insertBoolean_moves hR hk
  | lines => exact call.joinLines_moves hR hh ps
  | footnote => exact call.addFootnote_moves hR hk ps
  | abbreviation => exact call.expandAbbreviation_moves hR ps
  | ipaTranscribe => exact call.transcribe_moves hR ps
  | transliterate => exact call.transliterate_moves hR ps
  | ternary | language => exact .fail hR.toComposes _

omit hR in
theorem run_moves (hR : Permits kinds R) {handle : DefinitionId → Engine Unit}
    (hh : ∀ id, (handle id).Moves R) (call : Invocation) {kind : CommandKind} (hk : kinds kind)
    (ps : List Inline) : (call.run handle kind ps).Moves R :=
  call.run_moves_at (hR.permitsAt _) hh hk ps

end Invocation

end

/-! ## How commands end with a value -/

namespace Engine

variable {c c' : Context}

@[simp]
theorem gives_text_ok {i : Inline} {s : String} :
    (text i).Gives c (.ok s) c' ↔ c.inlineText? i = some s ∧ c' = c := by
  rw [text, gives_get_bind, gives_ofOption]
  constructor
  · rintro ⟨_, h, hs, rfl⟩; cases hs; exact ⟨h, rfl⟩
  · rintro ⟨h, rfl⟩; exact ⟨s, h, rfl, rfl⟩

theorem gives_text_bind_ok {α : Type} {i : Inline} {f : String → Engine α} {a : α} :
    (text i >>= f).Gives c (.ok a) c' ↔
      ∃ s, c.inlineText? i = some s ∧ (f s).Gives c (.ok a) c' := by
  rw [gives_bind_ok]
  constructor
  · rintro ⟨s, c₁, hs, hf⟩
    obtain ⟨hs, rfl⟩ := gives_text_ok.1 hs
    exact ⟨s, hs, hf⟩
  · rintro ⟨s, hs, hf⟩
    exact ⟨s, c, gives_text_ok.2 ⟨hs, rfl⟩, hf⟩

@[simp]
theorem gives_normalize_ok {segments : List Segment} {s : String} :
    (normalize segments).Gives c (.ok s) c' ↔
      s = c.fonts.normalize segments ∧ c' = c.warnAll (c.fonts.warnings segments) := by
  rw [normalize, gives_get_bind, gives_set_bind, gives_pure, Except.ok.injEq]

theorem gives_normalizedText_bind_ok {α : Type} {enclosing : Tags} {i : Inline}
    {f : String → Engine α} {a : α}
    (h : (normalizedText enclosing i >>= f).Gives c (.ok a) c') :
    ∃ s warnings, (f s).Gives (c.warnAll warnings) (.ok a) c' := by
  rw [normalizedText, bind_assoc, gives_get_bind, bind_assoc, gives_ofOption_bind] at h
  obtain ⟨segments, -, h⟩ := h
  rw [gives_bind_ok] at h
  obtain ⟨s, c₁, hs, h⟩ := h
  obtain ⟨rfl, rfl⟩ := gives_normalize_ok.1 hs
  exact ⟨_, _, h⟩

end Engine

namespace Invocation

variable {handle : DefinitionId → Engine Unit} {call : Invocation} {c c' : Context}

@[simp]
theorem gives_use_bind {α : Type} {target : DefinitionId} {f : PUnit → Engine α}
    {r : Except Error α} :
    (call.use target >>= f).Gives c r c' ↔
      (f ⟨⟩).Gives (c.addReference target call.scope.owner) r c' :=
  Engine.gives_modify_bind

@[simp]
theorem gives_lookup?_bind {α : Type} {key : String} {f : Option DefinitionId → Engine α}
    {r : Except Error α} :
    (call.lookup? key >>= f).Gives c r c' ↔
      (f (c.lookup? key call.scope.document)).Gives c r c' :=
  Engine.gives_bind_of_answer? rfl

/-- The separator of lines that gives none, and the context it is found in. -/
inductive Separates (handle : DefinitionId → Engine Unit) (call : Invocation) (c : Context) :
    Inline → Context → Prop
  | settings : c.lookup? separatorKey call.scope.document = none →
      Separates handle call c (.unicode c.settings.lineSeparator none) c
  | selected {target : DefinitionId} {d : Definition} {runs : RunCollection} :
      c.lookup? separatorKey call.scope.document = some target →
      (c.addReference target call.scope.owner).definition? target = some d →
      d.kind = .multilingual runs →
      Separates handle call c
        (((call.selectRun runs c.settings.equivalence).map Run.toInline).getD
          (.unicode c.settings.lineSeparator none))
        (c.addReference target call.scope.owner)
  | definition {target : DefinitionId} {d : Definition} {c₁ : Context} {segments : List Segment} :
      c.lookup? separatorKey call.scope.document = some target →
      (c.addReference target call.scope.owner).definition? target = some d →
      ¬ d.kind.IsMultilingual →
      (handle target).Gives (c.addReference target call.scope.owner) (.ok ()) c₁ →
      c₁.segments? target = some segments →
      Separates handle call c (.unicode (c₁.fonts.normalize segments) none)
        (c₁.warnAll (c₁.fonts.warnings segments))

theorem separates_of_gives {separator : Inline}
    (h : (call.defaultSeparator handle).Gives c (.ok separator) c') :
    Separates handle call c separator c' := by
  rw [defaultSeparator, gives_lookup?_bind] at h
  rcases hl : c.lookup? separatorKey call.scope.document with _ | target
  · simp only [hl, Engine.gives_get_bind, Engine.gives_pure, Except.ok.injEq] at h
    obtain ⟨rfl, rfl⟩ := h
    exact .settings hl
  · simp only [hl, gives_use_bind, Engine.gives_definition_bind] at h
    obtain ⟨d, hd, h⟩ := h
    split at h
    · rename_i runs hk
      rw [Engine.gives_get_bind, Engine.gives_pure, Except.ok.injEq] at h
      obtain ⟨rfl, rfl⟩ := h
      exact .selected hl hd hk
    · rename_i hk
      have hm : ¬ d.kind.IsMultilingual := by
        rintro ⟨runs, hm⟩
        exact hk runs hm
      obtain ⟨_, c₁, hhandle, h⟩ := Engine.gives_bind_ok.1 h
      rw [Engine.gives_get_bind, Engine.gives_ofOption_bind] at h
      obtain ⟨segments, hs, h⟩ := h
      obtain ⟨s, c₂, hn, h⟩ := Engine.gives_bind_ok.1 h
      obtain ⟨rfl, rfl⟩ := Engine.gives_normalize_ok.1 hn
      obtain ⟨hr, rfl⟩ := Engine.gives_pure.1 h
      cases hr
      exact .definition hl hd hm hhandle hs

/-- It is a run. -/
theorem Separates.eq_run {separator : Inline} (h : Separates handle call c separator c') :
    ∃ text own, separator = .run text own := by
  cases h with
  | settings | definition => exact ⟨_, _, rfl⟩
  | selected =>
    rename_i runs _ _ _
    rcases call.selectRun runs c.settings.equivalence with _ | run <;> exact ⟨_, _, rfl⟩

/-- What a command with executed parameters stands for, with its footnote, and the context it
    leaves. -/
inductive Effects (handle : DefinitionId → Engine Unit) (call : Invocation) (c : Context) :
    CommandKind → List Inline → Effect → Context → Prop
  | definition {p : Inline} {key : String} {target : DefinitionId} {d : Definition}
      {c' : Context} :
      c.inlineText? p = some key →
      c.lookup? (trim key) call.scope.document = some target →
      (c.addReference target call.scope.owner).definition? target = some d →
      ¬ d.kind.IsMultilingual →
      (handle target).Gives (c.addReference target call.scope.owner) (.ok ()) c' →
      Effects handle call c .definition [p] (.definition target) c'
  | value {p : Inline} {key : String} {target : DefinitionId} {d : Definition}
      {runs : RunCollection} {run : Run} :
      c.inlineText? p = some key →
      c.lookup? (trim key) call.scope.document = some target →
      (c.addReference target call.scope.owner).definition? target = some d →
      d.kind = .multilingual runs →
      call.selectRun runs c.settings.equivalence = some run →
      Effects handle call c .definition [p] (.inline run.toInline)
        (c.addReference target call.scope.owner)
  | sharedBoolean {ps : List Inline} {key : String} {target : DefinitionId} {d : Definition}
      {value : Bool} :
      c.lookup? key call.scope.document = some target →
      c.definition? target = some d → d.kind = .boolean value →
      Effects handle call c .boolean ps (.definition target)
        (c.addReference target call.scope.owner)
  | newBoolean {ps : List Inline} {key : String} {value : Bool} :
      Effects handle call c .boolean ps (.definition (c.addBoolean none key value).1)
        ((c.addBoolean none key value).2.addReference (c.addBoolean none key value).1
          call.scope.owner)
  | lines {separator : Inline} {lines : List Inline} {s : String} :
      c.inlineText? separator = some s → s.isEmpty = false →
      Effects handle call c .lines (separator :: lines)
        (.inline (.span (lines.intersperse separator) .unset)) c
  | defaultLines {separator default : Inline} {lines : List Inline} {s : String} {c' : Context} :
      c.inlineText? separator = some s → s.isEmpty = true →
      Separates handle call c default c' →
      Effects handle call c .lines (separator :: lines)
        (.inline (.span (lines.intersperse default) .unset)) c'
  | footnote {annotated : List Inline} {body : Inline} {number : Nat} {c' : Context} :
      c' = c.modifyFootnotes call.scope.document (fun list =>
        { list with counter := list.counter + 1 }) →
      number = (c'.footnoteList call.scope.document).counter →
      Effects handle call c .footnote (annotated ++ [body])
        { output := .inline (.span (annotated ++ [.unicode s!"[{number}]" none]) .unset)
          footnote := some { number, body := .span [body] call.tags } } c'
  | text {kind : CommandKind} {ps : List Inline} {s : String} {language : Option Language}
      {warnings : List Warning} :
      kind ∈ [.abbreviation, .ipaTranscribe, .transliterate] →
      Effects handle call c kind ps (.inline (.unicode s language)) (c.warnAll warnings)

theorem gives_insertDefinition_ok {ps : List Inline} {effect : Effect}
    (h : (call.insertDefinition handle ps).Gives c (.ok effect) c') :
    Effects handle call c .definition ps effect c' := by
  rcases ps with _ | ⟨p, _ | _⟩
  case cons.nil =>
    rw [insertDefinition, Engine.gives_text_bind_ok] at h
    obtain ⟨key, hkey, h⟩ := h
    dsimp only at h
    rw [Engine.gives_get_bind, Engine.gives_ofExcept_bind_ok] at h
    obtain ⟨target, hl, h⟩ := h
    have hl' := Context.lookup?_of_lookup hl
    rw [gives_use_bind, Engine.gives_definition_bind] at h
    obtain ⟨d, hd, h⟩ := h
    split at h
    · rename_i runs hk
      rw [Engine.gives_get_bind] at h
      split at h
      · rename_i run hrun
        obtain ⟨he, rfl⟩ := Engine.gives_pure.1 h
        cases he
        exact .value hkey hl' hd hk hrun
      · simp at h
    · rename_i hk
      have hm : ¬ d.kind.IsMultilingual := by
        rintro ⟨runs, hm⟩
        exact hk runs hm
      rw [Engine.gives_bind_ok] at h
      obtain ⟨_, c₁, hhandle, h⟩ := h
      obtain ⟨he, rfl⟩ := Engine.gives_pure.1 h
      cases he
      exact .definition hkey hl' hd hm hhandle
  all_goals simp [insertDefinition, wrongCount] at h

theorem gives_insertBoolean_ok {ps : List Inline} {effect : Effect}
    (h : call.insertBoolean.Gives c (.ok effect) c') :
    Effects handle call c .boolean ps effect c' := by
  have hmake : ∀ {key value target c₁}, (insertBoolean.make key value).Gives c (.ok target) c₁ →
      target = (c.addBoolean none key value).1 ∧ c₁ = (c.addBoolean none key value).2 := by
    intro key value target c₁ h
    obtain ⟨ht, rfl⟩ := Engine.gives_modifyGet.1 h
    exact ⟨Except.ok.inj ht, rfl⟩
  rw [insertBoolean, gives_lookup?_bind, Engine.gives_bind_ok] at h
  obtain ⟨target, c₁, hshared, h⟩ := h
  rw [gives_use_bind, Engine.gives_pure, Except.ok.injEq] at h
  obtain ⟨rfl, rfl⟩ := h
  rw [insertBoolean.shared, Engine.gives_get_bind] at hshared
  split at hshared
  · rename_i id hl
    split at hshared
    · rename_i value hk
      obtain ⟨d, hd, hb⟩ := Option.map_eq_some_iff.1 hk
      obtain ⟨ht, rfl⟩ := Engine.gives_pure.1 hshared
      cases ht
      exact .sharedBoolean hl hd hb
    · obtain ⟨rfl, rfl⟩ := hmake hshared; exact .newBoolean
  · obtain ⟨rfl, rfl⟩ := hmake hshared; exact .newBoolean

theorem gives_joinLines_ok {ps : List Inline} {effect : Effect}
    (h : (call.joinLines handle ps).Gives c (.ok effect) c') :
    Effects handle call c .lines ps effect c' := by
  rcases ps with _ | ⟨separator, lines⟩
  · simp [joinLines, wrongCount] at h
  · rw [joinLines, Engine.gives_text_bind_ok] at h
    obtain ⟨s, hs, h⟩ := h
    dsimp only at h
    split at h
    · rename_i hempty
      rw [Engine.gives_bind_ok] at h
      obtain ⟨default, c₁, hdefault, h⟩ := h
      obtain ⟨he, rfl⟩ := Engine.gives_pure.1 h
      cases he
      exact .defaultLines hs hempty (separates_of_gives hdefault)
    · rename_i hempty
      obtain ⟨he, rfl⟩ := Engine.gives_pure.1 h
      cases he
      exact .lines hs (by simpa using hempty)

theorem gives_addFootnote_ok {ps : List Inline} {effect : Effect}
    (h : (call.addFootnote ps).Gives c (.ok effect) c') :
    Effects handle call c .footnote ps effect c' := by
  have hnote : ∀ annotated body, (addFootnote.note call annotated body).Gives c (.ok effect) c' →
      Effects handle call c .footnote (annotated ++ [body]) effect c' := by
    intro annotated body h
    rw [addFootnote.note, Engine.gives_modify_bind, Engine.gives_get_bind, Engine.gives_pure,
      Except.ok.injEq] at h
    obtain ⟨rfl, rfl⟩ := h
    exact .footnote rfl rfl
  rcases ps with _ | ⟨a, _ | ⟨b, _ | _⟩⟩
  case cons.nil => exact hnote [] a h
  case cons.cons.nil => exact hnote [a] b h
  all_goals simp [addFootnote, wrongCount] at h

theorem gives_analyzer_ok {analyzer : Analyzer} (h : call.analyzer.Gives c (.ok analyzer) c') :
    c' = c := by
  unfold Invocation.analyzer at h
  split at h
  · simp at h
  · rw [Engine.gives_get_bind] at h
    split at h
    · exact (Engine.gives_pure.1 h).2
    · simp at h

theorem gives_languageOf_ok {tag : String} {language : Language}
    (h : (call.languageOf tag).Gives c (.ok language) c') :
    Language.read? tag = some language ∧ c' = c := by
  unfold languageOf at h
  split at h
  · rename_i hread
    obtain ⟨hr, rfl⟩ := Engine.gives_pure.1 h
    cases hr
    exact ⟨hread, rfl⟩
  · simp [reject] at h

theorem gives_expandAbbreviation_ok {ps : List Inline} {effect : Effect}
    (h : (call.expandAbbreviation ps).Gives c (.ok effect) c') :
    Effects handle call c .abbreviation ps effect c' := by
  have hexpand : ∀ {key keep}, (expandAbbreviation.expand call key keep).Gives c (.ok effect) c' →
      Effects handle call c .abbreviation ps effect c' := by
    intro key keep hg
    rw [expandAbbreviation.expand, Engine.gives_bind_ok] at hg
    obtain ⟨analyzer, c₁, ha, hg⟩ := hg
    rw [gives_analyzer_ok ha] at hg
    split at hg
    · obtain ⟨he, rfl⟩ := Engine.gives_pure.1 hg
      cases he
      have hnil := c'.warnAll_nil
      exact hnil ▸ .text (by simp)
    · simp at hg
  rcases ps with _ | ⟨a, _ | ⟨b, _ | _⟩⟩
  case cons.nil =>
    rw [expandAbbreviation, Engine.gives_text_bind_ok] at h
    obtain ⟨key, -, h⟩ := h
    exact hexpand h
  case cons.cons.nil =>
    rw [expandAbbreviation, Engine.gives_text_bind_ok] at h
    obtain ⟨keep, -, h⟩ := h
    split at h
    · rw [Engine.gives_text_bind_ok] at h
      obtain ⟨key, -, h⟩ := h
      exact hexpand h
    · simp [reject] at h
  all_goals simp [expandAbbreviation, wrongCount] at h

theorem gives_transcribe_ok {ps : List Inline} {effect : Effect}
    (h : (call.transcribe ps).Gives c (.ok effect) c') :
    Effects handle call c .ipaTranscribe ps effect c' := by
  rcases ps with _ | ⟨a, _ | _⟩
  case cons.nil =>
    rw [transcribe] at h
    replace h := Engine.gives_normalizedText_bind_ok h
    obtain ⟨text, warnings, h⟩ := h
    rw [Engine.gives_bind_ok] at h
    obtain ⟨analyzer, c₁, ha, h⟩ := h
    obtain rfl := gives_analyzer_ok ha
    obtain ⟨he, rfl⟩ := Engine.gives_pure.1 h
    cases he
    exact .text (by simp)
  all_goals simp [transcribe, wrongCount] at h

theorem gives_transliterate_ok {ps : List Inline} {effect : Effect}
    (h : (call.transliterate ps).Gives c (.ok effect) c') :
    Effects handle call c .transliterate ps effect c' := by
  have hwrite : ∀ {tag text separator warnings},
      (transliterate.write call tag text separator).Gives (c.warnAll warnings) (.ok effect) c' →
        Effects handle call c .transliterate ps effect c' := by
    intro tag text separator warnings h
    rw [transliterate.write, Engine.gives_bind_ok] at h
    obtain ⟨target, c₁, ht, h⟩ := h
    obtain ⟨-, rfl⟩ := gives_languageOf_ok ht
    rw [Engine.gives_get_bind] at h
    dsimp only at h
    rw [Engine.gives_bind_ok] at h
    obtain ⟨analyzer, c₁, ha, h⟩ := h
    obtain rfl := gives_analyzer_ok ha
    split at h
    · obtain ⟨he, rfl⟩ := Engine.gives_pure.1 h
      cases he
      exact .text (by simp)
    · simp at h
  rcases ps with _ | ⟨a, _ | ⟨b, _ | ⟨d, _ | _⟩⟩⟩
  case cons.cons.nil =>
    rw [transliterate, Engine.gives_text_bind_ok] at h
    obtain ⟨tag, -, h⟩ := h
    replace h := Engine.gives_normalizedText_bind_ok h
    obtain ⟨text, warnings, h⟩ := h
    exact hwrite h
  case cons.cons.cons.nil =>
    rw [transliterate, Engine.gives_text_bind_ok] at h
    obtain ⟨tag, -, h⟩ := h
    replace h := Engine.gives_normalizedText_bind_ok h
    obtain ⟨text, warnings, h⟩ := h
    rw [Engine.gives_text_bind_ok] at h
    obtain ⟨separator, -, h⟩ := h
    exact hwrite h
  all_goals simp [transliterate, wrongCount] at h

/-- A command with executed parameters that ends with a value does what its kind does. -/
theorem effects_of_run {kind : CommandKind} {ps : List Inline} {effect : Effect}
    (h : (call.run handle kind ps).Gives c (.ok effect) c') :
    Effects handle call c kind ps effect c' := by
  cases kind with
  | definition => exact gives_insertDefinition_ok h
  | boolean => exact gives_insertBoolean_ok h
  | lines => exact gives_joinLines_ok h
  | footnote => exact gives_addFootnote_ok h
  | abbreviation => exact gives_expandAbbreviation_ok h
  | ipaTranscribe => exact gives_transcribe_ok h
  | transliterate => exact gives_transliterate_ok h
  | ternary | language => simp [run, wrongCount] at h

/-- The truth value of a condition is that of the boolean it stands for, or the one its text
    denotes; the context stays as it is. -/
theorem gives_conditionValue_ok {i : Inline} {value : Bool}
    (h : (call.conditionValue i).Gives c (.ok value) c') :
    c' = c ∧ ((∃ id d, i.target? = some id ∧ c.definition? id = some d ∧ d.kind = .boolean value) ∨
      ∃ s, c.inlineText? i = some s ∧ readTruth s = some value) := by
  rw [conditionValue, Engine.gives_bind_ok] at h
  obtain ⟨found, c₁, hfound, h⟩ := h
  have hc : c₁ = c ∧ ∀ b, found = some b →
      ∃ id d, i.target? = some id ∧ c.definition? id = some d ∧ d.kind = .boolean b := by
    unfold conditionValue.booleanOf at hfound
    split at hfound
    · obtain ⟨he, rfl⟩ := Engine.gives_pure.1 hfound
      cases he
      exact ⟨rfl, by simp⟩
    · rename_i id ht
      rw [Engine.gives_definition_bind] at hfound
      obtain ⟨d, hd, hfound⟩ := hfound
      split at hfound
      all_goals
        obtain ⟨he, rfl⟩ := Engine.gives_pure.1 hfound
        cases he
      · rename_i b hb
        refine ⟨rfl, ?_⟩
        rintro _ ⟨⟩
        exact ⟨id, d, ht, hd, hb⟩
      · exact ⟨rfl, by simp⟩
  obtain ⟨rfl, hb⟩ := hc
  split at h
  · obtain ⟨he, rfl⟩ := Engine.gives_pure.1 h
    cases he
    exact ⟨rfl, Or.inl (hb _ rfl)⟩
  · rw [Engine.gives_text_bind_ok] at h
    obtain ⟨s, hs, h⟩ := h
    split at h
    · rename_i b hread
      obtain ⟨he, rfl⟩ := Engine.gives_pure.1 h
      cases he
      exact ⟨rfl, Or.inr ⟨s, hs, hread⟩⟩
    · simp [reject] at h

end Invocation

/-! ## Executing inlines -/

namespace Inline

/-- The kind of a command that is not executed yet. -/
def pendingKind? : Inline → Option CommandKind
  | command _ kind _ _ .pending => some kind
  | _ => none

/-- The commands in the inline that are not executed yet are of the given kinds. -/
def Uses (kinds : CommandKind → Prop) (i : Inline) : Prop :=
  ∀ j ∈ i.nested, ∀ kind ∈ j.pendingKind?, kinds kind

instance (kinds : CommandKind → Prop) [DecidablePred kinds] (i : Inline) :
    Decidable (i.Uses kinds) :=
  inferInstanceAs (Decidable (∀ j ∈ i.nested, ∀ kind ∈ j.pendingKind?, kinds kind))

section
variable {kinds : CommandKind → Prop}

theorem uses_all {i : Inline} : i.Uses fun _ => True :=
  fun _ _ _ _ => trivial

theorem Uses.of_span {l : List Inline} {own : Tags} (h : (span l own).Uses kinds) :
    ∀ i ∈ l, i.Uses kinds := by
  intro i hi j hj
  refine h j ?_
  rw [nested_span]
  exact List.mem_cons_of_mem _ (mem_nestedList.2 ⟨i, hi, hj⟩)

theorem Uses.of_command {name : String} {kind : CommandKind} {parameters : List Inline}
    {own : Tags} (h : (command name kind parameters own .pending).Uses kinds) :
    kinds kind ∧ ∀ i ∈ parameters, i.Uses kinds := by
  refine ⟨h _ (self_mem_nested _) kind rfl, fun i hi j hj => h j ?_⟩
  rw [nested_command]
  exact List.mem_cons_of_mem _ (mem_nestedList.2 ⟨i, List.mem_append_left _ hi, hj⟩)

end

section
variable {handle : DefinitionId → Engine Unit} {scope : Scope} {enclosing : Tags}

theorem execute_span (l : List Inline) (own : Tags) :
    execute handle scope enclosing (span l own) = (do
      let (inlines, notes) ← executeList handle scope (own.inherit enclosing) l
      return (span inlines own, notes)) := by
  rw [execute]

/-- An executed command is not executed again. -/
theorem execute_executed {name : String} {kind : CommandKind} {parameters : List Inline}
    {own : Tags} {evaluation : Evaluation} (h : evaluation ≠ .pending) :
    execute handle scope enclosing (command name kind parameters own evaluation) =
      pure (command name kind parameters own evaluation, []) := by
  rw [execute]
  exact h

/-- Of most commands the parameters are executed first, then the command itself. -/
theorem execute_command {name : String} {kind : CommandKind} (parameters : List Inline)
    (own : Tags) (h : kind.resolvesOwnParameters = false) :
    execute handle scope enclosing (command name kind parameters own .pending) =
      Engine.within (.command name) (do
        let (parameters, notes) ← executeList handle scope (own.inherit enclosing) parameters
        let effect ← Invocation.run handle { name, scope, tags := own.inherit enclosing } kind
          parameters
        return (command name kind parameters own (.of effect.output effect.footnote),
          notes ++ effect.footnote.toList)) := by
  rw [execute] <;> intros <;> simp_all [CommandKind.resolvesOwnParameters]

/-- The ternary and the language command take three and two parameters; with another number of
    them they fail. -/
theorem execute_ownParameters (name : String) {kind : CommandKind} (parameters : List Inline)
    (own : Tags) (h : kind.resolvesOwnParameters = true) :
    (∃ condition yes no, kind = .ternary ∧ parameters = [condition, yes, no]) ∨
      (∃ tag body, kind = .language ∧ parameters = [tag, body]) ∨
      ∃ cause, ∀ handle scope enclosing,
        execute handle scope enclosing (command name kind parameters own .pending) =
          Engine.within (.command name) (Engine.fail cause) := by
  have hfails : ∀ expected, (∀ handle scope enclosing,
      execute handle scope enclosing (command name kind parameters own .pending) =
        Engine.within (.command name) (Engine.fail (.wrongCount name expected parameters.length))) →
      ∃ cause, ∀ handle scope enclosing,
        execute handle scope enclosing (command name kind parameters own .pending) =
          Engine.within (.command name) (Engine.fail cause) :=
    fun _ hexecute => ⟨_, hexecute⟩
  cases kind <;> simp [CommandKind.resolvesOwnParameters] at h
  case ternary =>
    rcases parameters with _ | ⟨a, _ | ⟨b, _ | ⟨d, _ | _⟩⟩⟩
    case cons.cons.cons.nil => exact Or.inl ⟨a, b, d, rfl, rfl⟩
    all_goals
      refine Or.inr (Or.inr (hfails "exactly 3" fun handle scope enclosing => ?_))
      rw [execute, Invocation.wrongCount]
      simp
  case language =>
    rcases parameters with _ | ⟨a, _ | ⟨b, _ | _⟩⟩
    case cons.cons.nil => exact Or.inr (Or.inl ⟨a, b, rfl, rfl⟩)
    all_goals
      refine Or.inr (Or.inr (hfails "exactly 2" fun handle scope enclosing => ?_))
      rw [execute, Invocation.wrongCount]
      simp

end

section
variable {kinds used : CommandKind → Prop} {R : Context → Context → Prop}
  {handle : DefinitionId → Engine Unit} {scope : Scope}

section
variable (hR : PermitsAt scope.owner kinds R)
include hR

theorem executeList_moves_of {l : List Inline}
    (h : ∀ i ∈ l, ∀ enclosing, (execute handle scope enclosing i).Moves R) (enclosing : Tags) :
    (executeList handle scope enclosing l).Moves R := by
  induction l with
  | nil => rw [executeList]; exact .pure hR.toComposes _
  | cons i l ih =>
    rw [executeList]
    refine .bind hR.toComposes (h i (by simp) enclosing) fun _ => ?_
    exact .bind hR.toComposes (ih fun j hj => h j (by simp [hj])) fun _ => .pure hR.toComposes _

section
variable (hrun : ∀ (name : String) (tags : Tags) {kind : CommandKind}, used kind →
  ∀ ps, (Invocation.run handle { name, scope, tags } kind ps).Moves R)
include hrun

/-- Execution moves contexts along what every command that is used moves them along. -/
theorem execute_moves_of_run (i : Inline) (hi : i.Uses used) (enclosing : Tags) :
    (execute handle scope enclosing i).Moves R := by
  induction i using induction generalizing enclosing with
  | run text own => rw [execute]; exact .pure hR.toComposes _
  | span l own ih =>
    rw [execute_span]
    refine .bind hR.toComposes ?_ fun _ => .pure hR.toComposes _
    exact executeList_moves_of hR (fun i hi' enclosing => ih i hi' (hi.of_span i hi') enclosing) _
  | command name kind parameters own evaluation ih _ =>
    by_cases he : evaluation = .pending
    case neg => rw [execute_executed he]; exact .pure hR.toComposes _
    subst he
    obtain ⟨hk, hp⟩ := hi.of_command
    have ih' := fun i hi enclosing => ih i hi (hp i hi) enclosing
    rcases ho : kind.resolvesOwnParameters with _ | _
    · rw [execute_command parameters own ho]
      refine .within (.bind hR.toComposes (executeList_moves_of hR ih' _) fun _ => ?_)
      exact .bind hR.toComposes (hrun _ _ hk _) fun _ => .pure hR.toComposes _
    · rcases execute_ownParameters name parameters own ho with
        ⟨condition, yes, no, rfl, rfl⟩ | ⟨tag, body, rfl, rfl⟩ | ⟨cause, hfail⟩
      · rw [execute]
        refine .within (.bind hR.toComposes (ih' condition (by simp) _) fun a => ?_)
        refine .bind hR.toComposes (Invocation.conditionValue_moves _ hR _) fun b => ?_
        cases b
        · exact .bind hR.toComposes (ih' no (by simp) _) fun _ => .pure hR.toComposes _
        · exact .bind hR.toComposes (ih' yes (by simp) _) fun _ => .pure hR.toComposes _
      · rw [execute]
        refine .within (.bind hR.toComposes (ih' tag (by simp) _) fun a => ?_)
        refine .bind hR.toComposes (Engine.text_moves hR _) fun s => ?_
        refine .bind hR.toComposes (Invocation.languageOf_moves _ hR s) fun language => ?_
        exact .bind hR.toComposes (ih' body (by simp) _) fun _ => .pure hR.toComposes _
      · rw [hfail]; exact .within (.fail hR.toComposes _)

theorem executeList_moves_of_run (l : List Inline) (hl : ∀ i ∈ l, i.Uses used)
    (enclosing : Tags) : (executeList handle scope enclosing l).Moves R :=
  executeList_moves_of hR
    (fun i hi enclosing => execute_moves_of_run hR hrun i (hl i hi) enclosing) _

end

variable (hh : ∀ id, (handle id).Moves R)
include hh

/-- Execution moves contexts along every relation that allows what commands in the text do. -/
theorem executeList_moves_at (l : List Inline) (hl : ∀ i ∈ l, i.Uses kinds) (enclosing : Tags) :
    (executeList handle scope enclosing l).Moves R :=
  executeList_moves_of_run hR (fun _ _ _ hk ps => Invocation.run_moves_at _ hR hh hk ps) l hl
    enclosing

end

variable (hR : Permits kinds R) (hh : ∀ id, (handle id).Moves R)
include hR hh

/-- Execution moves contexts along every relation that allows what commands do. -/
theorem execute_moves (i : Inline) (hi : i.Uses kinds) (enclosing : Tags) :
    (execute handle scope enclosing i).Moves R :=
  execute_moves_of_run (hR.permitsAt _) (fun _ _ _ hk ps => Invocation.run_moves hR hh _ hk ps) i hi
    enclosing

theorem executeList_moves (l : List Inline) (hl : ∀ i ∈ l, i.Uses kinds) (enclosing : Tags) :
    (executeList handle scope enclosing l).Moves R :=
  executeList_moves_at (hR.permitsAt _) hh l hl enclosing

end

/-! ## Executions that end with a value -/

/-- What is shown of every execution that ends with a value, one rule for each way to end:
    `P tags i c i' notes c'` holds if `i`, inside text with `tags`, is executed from `c` to `i'`
    with its footnotes and leaves `c'`; `L` is the same for lists. -/
structure ExecutionRules (handle : DefinitionId → Engine Unit) (scope : Scope)
    (P : Tags → Inline → Context → Inline → List Footnote → Context → Prop)
    (L : Tags → List Inline → Context → List Inline → List Footnote → Context → Prop) :
    Prop where
  run : ∀ tags text own c, P tags (.run text own) c (.run text own) [] c
  span : ∀ tags l own c l' notes c', L (own.inherit tags) l c l' notes c' →
    P tags (.span l own) c (.span l' own) notes c'
  executed : ∀ tags name kind parameters own evaluation c, evaluation ≠ .pending →
    P tags (.command name kind parameters own evaluation) c
      (.command name kind parameters own evaluation) [] c
  ternary : ∀ tags name condition yes no own c condition' notes c₁ value chosen more c',
    P (own.inherit tags) condition c condition' notes c₁ →
    (Invocation.conditionValue { name, scope, tags := own.inherit tags } condition').Gives c₁
      (.ok value) c₁ →
    P (own.inherit tags) (if value then yes else no) c₁ chosen more c' →
    P tags (.command name .ternary [condition, yes, no] own .pending) c
      (.command name .ternary
        [condition', if value then chosen else yes, if value then no else chosen] own
        (.evaluated (.parameter (if value then 1 else 2))))
      (notes ++ more) c'
  language : ∀ tags name tag body own c tag' notes c₁ language body' more c',
    P (own.inherit tags) tag c tag' notes c₁ →
    P { own.inherit tags with language := some language } body c₁ body' more c' →
    P tags (.command name .language [tag, body] own .pending) c
      (.command name .language [tag', body'] own
        (.evaluated (.inline (.span [body'] { language := some language }))))
      (notes ++ more) c'
  command : ∀ tags name kind parameters own c parameters' notes c₁ effect c',
    kind.resolvesOwnParameters = false →
    L (own.inherit tags) parameters c parameters' notes c₁ →
    (Invocation.run handle { name, scope, tags := own.inherit tags } kind parameters').Gives c₁
      (.ok effect) c' →
    P tags (.command name kind parameters own .pending) c
      (.command name kind parameters' own (.of effect.output effect.footnote))
      (notes ++ effect.footnote.toList) c'
  nil : ∀ tags c, L tags [] c [] [] c
  cons : ∀ tags i l c i' notes c₁ l' more c', P tags i c i' notes c₁ →
    L tags l c₁ l' more c' → L tags (i :: l) c (i' :: l') (notes ++ more) c'

namespace ExecutionRules

variable {handle : DefinitionId → Engine Unit} {scope : Scope}
  {P : Tags → Inline → Context → Inline → List Footnote → Context → Prop}
  {L : Tags → List Inline → Context → List Inline → List Footnote → Context → Prop}
  (rules : ExecutionRules handle scope P L)
include rules

theorem list {l : List Inline}
    (ih : ∀ i ∈ l, ∀ {tags c i' notes c'},
      (execute handle scope tags i).Gives c (.ok (i', notes)) c' → P tags i c i' notes c')
    {tags : Tags} {c c' : Context} {l' : List Inline} {notes : List Footnote}
    (h : (executeList handle scope tags l).Gives c (.ok (l', notes)) c') :
    L tags l c l' notes c' := by
  induction l generalizing c l' notes with
  | nil =>
    rw [executeList] at h
    obtain ⟨hr, rfl⟩ := Engine.gives_pure.1 h
    cases hr
    exact rules.nil tags c'
  | cons i l ihl =>
    rw [executeList, Engine.gives_bind_ok] at h
    obtain ⟨⟨i₁, notes₁⟩, c₁, hi, h⟩ := h
    rw [Engine.gives_bind_ok] at h
    obtain ⟨⟨l₁, more⟩, c₂, hl, h⟩ := h
    obtain ⟨hr, rfl⟩ := Engine.gives_pure.1 h
    cases hr
    have hrest := ihl (fun j hj => ih j (by simp [hj])) hl
    exact rules.cons _ _ _ _ _ _ _ _ _ _ (ih i (by simp) hi) hrest

/-- A command that executes its parameters itself. -/
theorem ownParameters {name : String} {kind : CommandKind} {parameters : List Inline} {own : Tags}
    (ho : kind.resolvesOwnParameters = true)
    (ih : ∀ i ∈ parameters, ∀ {tags c i' notes c'},
      (execute handle scope tags i).Gives c (.ok (i', notes)) c' → P tags i c i' notes c')
    {tags : Tags} {c c' : Context} {i' : Inline} {notes : List Footnote}
    (h : (execute handle scope tags (.command name kind parameters own .pending)).Gives c
      (.ok (i', notes)) c') :
    P tags (.command name kind parameters own .pending) c i' notes c' := by
  rcases execute_ownParameters name parameters own ho with
    ⟨condition, yes, no, rfl, rfl⟩ | ⟨tag, body, rfl, rfl⟩ | ⟨cause, hfail⟩
  · rw [execute, Engine.gives_within_ok, Engine.gives_bind_ok] at h
    obtain ⟨⟨condition', notes₁⟩, c₁, hcondition, h⟩ := h
    rw [Engine.gives_bind_ok] at h
    obtain ⟨value, c₂, hvalue, h⟩ := h
    obtain ⟨rfl, -⟩ := Invocation.gives_conditionValue_ok hvalue
    have hcondition := ih condition (by simp) hcondition
    cases value
    · rw [if_neg Bool.false_ne_true, Engine.gives_bind_ok] at h
      obtain ⟨⟨branch, more⟩, c₃, hbranch, h⟩ := h
      obtain ⟨hr, rfl⟩ := Engine.gives_pure.1 h
      cases hr
      have hbranch := ih no (by simp) hbranch
      exact rules.ternary _ _ _ _ _ _ _ _ _ _ false _ _ _ hcondition hvalue hbranch
    · rw [if_pos rfl, Engine.gives_bind_ok] at h
      obtain ⟨⟨branch, more⟩, c₃, hbranch, h⟩ := h
      obtain ⟨hr, rfl⟩ := Engine.gives_pure.1 h
      cases hr
      have hbranch := ih yes (by simp) hbranch
      exact rules.ternary _ _ _ _ _ _ _ _ _ _ true _ _ _ hcondition hvalue hbranch
  · rw [execute, Engine.gives_within_ok, Engine.gives_bind_ok] at h
    obtain ⟨⟨tag', notes₁⟩, c₁, htag, h⟩ := h
    rw [Engine.gives_text_bind_ok] at h
    obtain ⟨s, -, h⟩ := h
    rw [Engine.gives_bind_ok] at h
    obtain ⟨lang, c₂, hlang, h⟩ := h
    obtain ⟨-, rfl⟩ := Invocation.gives_languageOf_ok hlang
    rw [Engine.gives_bind_ok] at h
    obtain ⟨⟨body', more⟩, c₃, hbody, h⟩ := h
    obtain ⟨hr, rfl⟩ := Engine.gives_pure.1 h
    cases hr
    exact rules.language _ _ _ _ _ _ _ _ _ _ _ _ _ (ih tag (by simp) htag)
      (ih body (by simp) hbody)
  · rw [hfail] at h
    simp at h

/-- **Induction on executions that end with a value.** -/
theorem inline (i : Inline) {tags : Tags} {c c' : Context} {i' : Inline} {notes : List Footnote}
    (h : (execute handle scope tags i).Gives c (.ok (i', notes)) c') :
    P tags i c i' notes c' := by
  induction i using induction generalizing tags c i' notes c' with
  | run text own =>
    rw [execute] at h
    obtain ⟨hr, rfl⟩ := Engine.gives_pure.1 h
    cases hr
    exact rules.run tags text own c'
  | span l own ih =>
    rw [execute_span, Engine.gives_bind_ok] at h
    obtain ⟨⟨l', notes₁⟩, c₁, hl, h⟩ := h
    obtain ⟨hr, rfl⟩ := Engine.gives_pure.1 h
    cases hr
    exact rules.span _ _ _ _ _ _ _ (rules.list (fun i hi => ih i hi) hl)
  | command name kind parameters own evaluation ih _ =>
    by_cases he : evaluation = .pending
    case neg =>
      rw [execute_executed he] at h
      obtain ⟨hr, rfl⟩ := Engine.gives_pure.1 h
      cases hr
      exact rules.executed _ _ _ _ _ _ _ he
    subst he
    rcases ho : kind.resolvesOwnParameters with _ | _
    · rw [execute_command parameters own ho, Engine.gives_within_ok, Engine.gives_bind_ok] at h
      obtain ⟨⟨parameters', notes₁⟩, c₁, hp, h⟩ := h
      rw [Engine.gives_bind_ok] at h
      obtain ⟨effect, c₂, hrun, h⟩ := h
      obtain ⟨hr, rfl⟩ := Engine.gives_pure.1 h
      cases hr
      exact rules.command _ _ _ _ _ _ _ _ _ _ _ ho (rules.list (fun i hi => ih i hi) hp) hrun
    · exact rules.ownParameters ho (fun i hi => ih i hi) h

theorem inlines {l : List Inline} {tags : Tags} {c c' : Context} {l' : List Inline}
    {notes : List Footnote} (h : (executeList handle scope tags l).Gives c (.ok (l', notes)) c') :
    L tags l c l' notes c' :=
  rules.list (fun i _ => rules.inline i) h

end ExecutionRules

end Inline

end Rubric
