/-
  Rubric — executions side by side.

  Commands look at little of their context: keys, settings, the kinds of
  definitions, and the texts that parameters render as.  From contexts that concur
  in this, the same commands do the same, if the passes that they run do.

  * `CommandKind.plain`, `Invocation.Reads`: the parameters that a command reads as they
    render;
  * `Context.Handles`: the nodes whose passes a command may run;
  * `Concurs handle handle' … R`: contexts that `R` joins agree in what is looked at,
    and what is done to both of them keeps them joined;
  * **`Concurs.echoes_executeList`**: the execution of inlines echoes that from the
    other context.
-/
import Rubric.Proofs.Blame
import Rubric.Proofs.CommandPass
import Rubric.Proofs.Echo

namespace Rubric

open Text

/-! ## What is read -/

/-- The parameters that a command reads as they render, fonts and all. -/
def CommandKind.plain : CommandKind → List Inline → List Inline
  | .definition, parameters | .abbreviation, parameters => parameters
  | .ternary, condition :: _ => [condition]
  | .language, tag :: _ => [tag]
  | .lines, separator :: _ => [separator]
  | .transliterate, [target, _] => [target]
  | .transliterate, [target, _, separator] => [target, separator]
  | _, _ => []

theorem CommandKind.plain_subset (kind : CommandKind) (parameters : List Inline) :
    kind.plain parameters ⊆ parameters := by
  cases kind with
  | ternary | language | lines => rcases parameters with _ | ⟨p, ps⟩ <;> simp [plain]
  | transliterate =>
    rcases parameters with _ | ⟨a, _ | ⟨b, _ | ⟨d, _ | _⟩⟩⟩ <;> simp [plain]
  | _ => simp [plain]

/-- The command, whose execution begins at `c`, reads the inline as it renders in the second
    context: one of its parameters, executed. -/
inductive Invocation.Reads (handle : DefinitionId → Engine Unit) (call : Invocation) :
    CommandKind → List Inline → Context → Inline → Context → Prop
  | parameter {kind : CommandKind} {ps ps' : List Inline} {notes : List Footnote} {p : Inline}
      {c c₁ : Context} :
      kind.resolvesOwnParameters = false →
      (Inline.executeList handle call.scope call.tags ps).Gives c (.ok (ps', notes)) c₁ →
      p ∈ kind.plain ps' → Reads handle call kind ps c p c₁
  | condition {condition yes no p : Inline} {notes : List Footnote} {c c₁ : Context} :
      (Inline.execute handle call.scope call.tags condition).Gives c (.ok (p, notes)) c₁ →
      Reads handle call .ternary [condition, yes, no] c p c₁
  | tag {tag body p : Inline} {notes : List Footnote} {c c₁ : Context} :
      (Inline.execute handle call.scope call.tags tag).Gives c (.ok (p, notes)) c₁ →
      Reads handle call .language [tag, body] c p c₁

/-- A command with executed parameters, in a text of the document, may run the pass of `y`. -/
def Context.Handles (c : Context) (document : Option DocumentId) (y : DefinitionId) :
    CommandKind → List Inline → Prop
  | .definition, parameters => ∃ p s, parameters = [p] ∧ c.inlineText? p = some s ∧
      c.lookup? (trim s) document = some y
  | .lines, _ => c.lookup? Invocation.separatorKey document = some y
  | _, _ => False

/-- A node whose pass a command may run is under a key. -/
theorem Context.Handles.exists_key {c : Context} {document : Option DocumentId} {y : DefinitionId}
    {kind : CommandKind} {ps : List Inline} (h : c.Handles document y kind ps) :
    ∃ key, c.lookup? key document = some y := by
  cases kind
  case definition =>
    obtain ⟨_, s, -, -, hl⟩ := h
    exact ⟨_, hl⟩
  case lines => exact ⟨_, h⟩
  all_goals exact h.elim

/-- A command may run the pass of what it looks up. -/
theorem Invocation.LooksUp.handles {call : Invocation} {c : Context} {kind : CommandKind}
    {ps : List Inline} {y : DefinitionId} (h : call.LooksUp c kind ps y) :
    c.Handles call.scope.document y kind ps := by
  cases h with
  | definition hs hl => exact ⟨_, _, rfl, hs, hl⟩
  | separator _ hl => exact hl

/-- Segments read in two contexts have the same Unicode text, and `R` joins the contexts with the
    warnings that reading them gives. -/
structure Agrees (R : Context → Context → Prop) (c c' : Context)
    (segments segments' : List Segment) : Prop where
  text : c'.fonts.normalize segments' = c.fonts.normalize segments
  warned : R (c.warnAll (c.fonts.warnings segments)) (c'.warnAll (c'.fonts.warnings segments'))

/-- Both are the same value, as far as commands tell values apart. -/
structure DefinitionKind.Poses (kind kind' : DefinitionKind) : Prop where
  multilingual : ∀ runs, kind' = .multilingual runs ↔ kind = .multilingual runs
  boolean : ∀ value, kind' = .boolean value ↔ kind = .boolean value

/-- Contexts that `R` joins agree in what commands look at, and the passes of `nodes` from them keep
    them joined; those that commands of the first run start are `handle`, those of the second
    `handle'`.  Inlines whose execution begins with tags in two contexts satisfy `admits`, and
    commands in them are of the kinds that the scope `uses`.  What becomes of those that are read is
    `readable` as it renders, or at least in Unicode. -/
structure Concurs (handle handle' : DefinitionId → Engine Unit)
    (nodes : DefinitionId → Context → Context → Prop)
    (admits : Scope → Tags → List Inline → Context → Context → Prop)
    (uses : Scope → CommandKind → Prop) (readable convertible : Context → Context → Inline → Prop)
    (R : Context → Context → Prop) : Prop where
  lookup? : ∀ {c c'}, R c c' → ∀ key document, c'.lookup? key document = c.lookup? key document
  analyzers : ∀ {c c'}, R c c' → c'.analyzers = c.analyzers
  equivalence : ∀ {c c'}, R c c' → c'.settings.equivalence = c.settings.equivalence
  lineSeparator : ∀ {c c'}, R c c' → c'.settings.lineSeparator = c.settings.lineSeparator
  syllableSeparator : ∀ {c c'}, R c c' →
    c'.settings.syllableSeparator = c.settings.syllableSeparator
  definition : ∀ {c c' id d}, R c c' → c.definition? id = some d →
    ∃ d', c'.definition? id = some d' ∧ d.kind.Poses d'.kind
  absent : ∀ {c c' id}, R c c' → c.definition? id = none → c'.definition? id = none
  /-- Parameters that are read as they render have the same text. -/
  text : ∀ {c c' p s}, R c c' → readable c c' p → c.inlineText? p = some s →
    c'.inlineText? p = some s
  readable_of_core : ∀ {c c' c₁ c₁' p}, readable c c' p → c₁.core = c.core → c₁'.core = c'.core →
    readable c₁ c₁' p
  inlineSegments? : ∀ {c c' tags p segments}, R c c' → convertible c c' p →
    c.inlineSegments? tags p = some segments →
    ∃ segments', c'.inlineSegments? tags p = some segments' ∧ Agrees R c c' segments segments'
  /-- The text of a separator, once it is handled in both contexts. -/
  segments? : ∀ {c c' c₁ c₁' id segments}, nodes id c c' → R c c' →
    (handle id).Gives c (.ok ()) c₁ → (handle' id).Gives c' (.ok ()) c₁' → R c₁ c₁' →
    c₁.segments? id = some segments →
    ∃ segments', c₁'.segments? id = some segments' ∧ Agrees R c₁ c₁' segments segments'
  reference : ∀ {c c'}, R c c' → ∀ definition user,
    R (c.addReference definition user) (c'.addReference definition user)
  counter : ∀ {c c' scope}, uses scope .footnote → R c c' →
    (c'.footnoteList scope.document).counter = (c.footnoteList scope.document).counter
  number : ∀ {c c' scope}, uses scope .footnote → R c c' →
    R (c.modifyFootnotes scope.document fun list => { list with counter := list.counter + 1 })
      (c'.modifyFootnotes scope.document fun list => { list with counter := list.counter + 1 })
  boolean : ∀ {c c' scope}, uses scope .boolean → R c c' → ∀ (value : Bool) {key},
    key = (if value then "True" else "False") →
    (c'.addBoolean none key value).1 = (c.addBoolean none key value).1 ∧
      R (c.addBoolean none key value).2 (c'.addBoolean none key value).2
  span : ∀ {scope tags l own rest c c'}, admits scope tags (.span l own :: rest) c c' →
    admits scope (own.inherit tags) l c c'
  later : ∀ {scope tags i rest i' notes c c' c₁ c₁'}, admits scope tags (i :: rest) c c' →
    (i.execute handle scope tags).Gives c (.ok (i', notes)) c₁ →
    (i.execute handle' scope tags).Gives c' (.ok (i', notes)) c₁' → R c₁ c₁' →
    admits scope tags rest c₁ c₁'
  executes : ∀ {scope tags name kind ps own rest tags' l c c' c₁ c₁'},
    admits scope tags (.command name kind ps own .pending :: rest) c c' →
    Invocation.Executes handle { name, scope, tags := own.inherit tags } kind ps c tags' l c₁ →
    Invocation.Executes handle' { name, scope, tags := own.inherit tags } kind ps c' tags' l c₁' →
    R c₁ c₁' → admits scope tags' l c₁ c₁'
  uses : ∀ {scope tags name kind ps own rest c c'},
    admits scope tags (.command name kind ps own .pending :: rest) c c' → uses scope kind
  /-- The passes that a command runs are those of nodes. -/
  inserts : ∀ {scope tags name kind ps own rest c c' c₁ c₁' y},
    admits scope tags (.command name kind ps own .pending :: rest) c c' → R c c' →
    Invocation.Inserts handle { name, scope, tags := own.inherit tags } kind ps c y c₁ →
    Invocation.Inserts handle' { name, scope, tags := own.inherit tags } kind ps c' y c₁' →
    R c₁ c₁' → nodes y c₁ c₁'
  /-- What becomes of the parameters that a command reads as they render. -/
  reads : ∀ {scope tags name kind ps own rest p c c' c₁ c₁'},
    admits scope tags (.command name kind ps own .pending :: rest) c c' → R c c' →
    Invocation.Reads handle { name, scope, tags := own.inherit tags } kind ps c p c₁ →
    Invocation.Reads handle' { name, scope, tags := own.inherit tags } kind ps c' p c₁' →
    R c₁ c₁' → readable c₁ c₁' p
  /-- What becomes of the others, which it may read in Unicode. -/
  converts : ∀ {scope tags name kind ps own rest ps' notes c c' c₁ c₁'},
    admits scope tags (.command name kind ps own .pending :: rest) c c' → R c c' →
    (Inline.executeList handle scope (own.inherit tags) ps).Gives c (.ok (ps', notes)) c₁ →
    (Inline.executeList handle' scope (own.inherit tags) ps).Gives c' (.ok (ps', notes)) c₁' →
    R c₁ c₁' → ∀ p ∈ ps', convertible c₁ c₁' p

namespace Concurs

open Engine

variable {handle handle' : DefinitionId → Engine Unit}
  {nodes : DefinitionId → Context → Context → Prop}
  {admits : Scope → Tags → List Inline → Context → Context → Prop}
  {uses : Scope → CommandKind → Prop} {readable convertible : Context → Context → Inline → Prop}
  {R : Context → Context → Prop} {rigor : Rigor} {c c' : Context}
  (h : Concurs handle handle' nodes admits uses readable convertible R)
include h

/-! ## Reading -/

theorem lookup_eq (hR : R c c') (key : String) (document : Option DocumentId) :
    c'.lookup key document = c.lookup key document := by
  rw [Context.lookup, Context.lookup, h.lookup? hR]

theorem echoes_text {p : Inline} (hR : R c c') (hp : readable c c' p) :
    Echoes rigor R ((Engine.text p).answer? c) ((Engine.text p).answer? c') :=
  .get_bind (echoes_ofOption (fun _ => h.text hR hp) hR)

/-- Both runs go on from where they have read a text. -/
theorem echoes_text_bind {β : Type} {p : Inline} {f g : String → Engine β} (hR : R c c')
    (hp : readable c c' p)
    (hf : ∀ s, c.inlineText? p = some s → c'.inlineText? p = some s →
      Echoes rigor R ((f s).answer? c) ((g s).answer? c')) :
    Echoes rigor R ((Engine.text p >>= f).answer? c) ((Engine.text p >>= g).answer? c') := by
  refine (h.echoes_text hR hp).bind_of_both fun s c₁ c₁' hs hs' _ => ?_
  obtain ⟨hs, rfl⟩ := gives_text_ok.1 hs
  obtain ⟨hs', rfl⟩ := gives_text_ok.1 hs'
  exact hf s hs hs'

omit h in
theorem echoes_normalize {segments segments' : List Segment}
    (ha : Agrees R c c' segments segments') :
    Echoes rigor R ((normalize segments).answer? c) ((normalize segments').answer? c') := by
  have hnormalize : ∀ (c : Context) segments, (normalize segments).answer? c =
      some (.ok (c.fonts.normalize segments), c.warnAll (c.fonts.warnings segments)) :=
    fun _ _ => rfl
  rw [hnormalize, hnormalize, ha.text]
  exact echoes_some _ ha.warned

theorem echoes_normalizedText (tags : Tags) {p : Inline} (hR : R c c') (hp : convertible c c' p) :
    Echoes rigor R ((normalizedText tags p).answer? c) ((normalizedText tags p).answer? c') := by
  refine .get_bind ?_
  rcases hs : c.inlineSegments? tags p with _ | segments
  · exact echoes_none _
  · obtain ⟨segments', hs', ha⟩ := h.inlineSegments? hR hp hs
    rw [hs']
    exact echoes_normalize ha

omit h in
/-- Reading a text in Unicode gives warnings at most. -/
theorem core_of_normalizedText {tags : Tags} {p : Inline} {s : String} {c₁ : Context}
    (hs : (normalizedText tags p).Gives c (.ok s) c₁) : c₁.core = c.core := by
  rw [normalizedText, gives_get_bind, gives_ofOption_bind] at hs
  obtain ⟨segments, -, hs⟩ := hs
  obtain ⟨-, rfl⟩ := gives_normalize_ok.1 hs
  exact c.core_warnAll _

/-! ## Commands -/

section
variable (call : Invocation)

theorem echoes_use (target : DefinitionId) (hR : R c c') :
    Echoes rigor R ((call.use target).answer? c) ((call.use target).answer? c') :=
  echoes_modify (h.reference hR target _)

/-- Both runs go on from what they find under a key. -/
theorem echoes_lookup?_bind {β : Type} {key : String} {f g : Option DefinitionId → Engine β}
    (hR : R c c') (hf : ∀ found, c.lookup? key call.scope.document = found →
      Echoes rigor R ((f found).answer? c) ((g found).answer? c')) :
    Echoes rigor R ((call.lookup? key >>= f).answer? c) ((call.lookup? key >>= g).answer? c') := by
  rw [Invocation.lookup?, bind_assoc, bind_assoc]
  refine .get_bind ?_
  rw [pure_bind, pure_bind, h.lookup? hR]
  exact hf _ rfl

theorem echoes_analyzer (hR : R c c') :
    Echoes rigor R (call.analyzer.answer? c) (call.analyzer.answer? c') := by
  unfold Invocation.analyzer
  split
  · exact echoes_fail _ hR
  · refine .get_bind ?_
    rw [h.analyzers hR]
    split
    · exact echoes_pure _ hR
    · exact echoes_fail _ hR

theorem echoes_expandAbbreviation {ps : List Inline}
    (hp : ∀ p ∈ CommandKind.abbreviation.plain ps, readable c c' p) (hR : R c c') :
    Echoes rigor R ((call.expandAbbreviation ps).answer? c)
      ((call.expandAbbreviation ps).answer? c') := by
  have hexpand : ∀ key keep,
      Echoes rigor R ((Invocation.expandAbbreviation.expand call key keep).answer? c)
        ((Invocation.expandAbbreviation.expand call key keep).answer? c') := by
    intro key keep
    refine (h.echoes_analyzer call hR).bind fun analyzer c₁ c₁' _ hR => ?_
    split
    · exact echoes_pure _ hR
    · exact echoes_fail _ hR
  rcases ps with _ | ⟨key, _ | ⟨keep, _ | _⟩⟩
  case cons.nil =>
    exact h.echoes_text_bind hR (hp key (by simp [CommandKind.plain])) fun s _ _ => hexpand _ _
  case cons.cons.nil =>
    refine h.echoes_text_bind hR (hp keep (by simp [CommandKind.plain])) fun s _ _ => ?_
    split
    · exact h.echoes_text_bind hR (hp key (by simp [CommandKind.plain])) fun s _ _ => hexpand _ _
    · exact echoes_fail _ hR
  all_goals exact echoes_fail _ hR

theorem echoes_transcribe {ps : List Inline} (hq : ∀ p ∈ ps, convertible c c' p) (hR : R c c') :
    Echoes rigor R ((call.transcribe ps).answer? c) ((call.transcribe ps).answer? c') := by
  rcases ps with _ | ⟨p, _ | _⟩
  case cons.nil =>
    refine (h.echoes_normalizedText _ hR (hq p (by simp))).bind fun s _ _ _ hR => ?_
    exact (h.echoes_analyzer call hR).bind fun analyzer _ _ _ hR => echoes_pure _ hR
  all_goals exact echoes_fail _ hR

omit h in
theorem echoes_languageOf (tag : String) (hR : R c c') :
    Echoes rigor R ((call.languageOf tag).answer? c) ((call.languageOf tag).answer? c') := by
  unfold Invocation.languageOf
  split
  · exact echoes_pure _ hR
  · exact echoes_fail _ hR

theorem echoes_transliterate {ps : List Inline}
    (hp : ∀ p ∈ CommandKind.transliterate.plain ps, readable c c' p)
    (hq : ∀ p ∈ ps, convertible c c' p) (hR : R c c') :
    Echoes rigor R ((call.transliterate ps).answer? c) ((call.transliterate ps).answer? c') := by
  have hwrite : ∀ tag text separator {c c'}, R c c' →
      Echoes rigor R ((Invocation.transliterate.write call tag text separator).answer? c)
        ((Invocation.transliterate.write call tag text separator).answer? c') := by
    intro tag text separator c c' hR
    refine (echoes_languageOf call tag hR).bind fun target _ _ _ hR => .get_bind ?_
    rw [h.syllableSeparator hR]
    refine (h.echoes_analyzer call hR).bind fun analyzer _ _ _ hR => ?_
    split
    · exact echoes_pure _ hR
    · exact echoes_fail _ hR
  rcases ps with _ | ⟨target, _ | ⟨p, _ | ⟨separator, _ | _⟩⟩⟩
  case cons.cons.nil =>
    refine h.echoes_text_bind hR (hp target (by simp [CommandKind.plain])) fun tag _ _ => ?_
    exact (h.echoes_normalizedText _ hR (hq p (by simp))).bind fun s _ _ _ hR => hwrite _ _ _ hR
  case cons.cons.cons.nil =>
    refine h.echoes_text_bind hR (hp target (by simp [CommandKind.plain])) fun tag _ _ => ?_
    refine (h.echoes_normalizedText _ hR (hq p (by simp))).bind_of_both
      fun s c₁ c₁' hs hs' hR => ?_
    have hseparator := h.readable_of_core (hp separator (by simp [CommandKind.plain]))
      (core_of_normalizedText hs) (core_of_normalizedText hs')
    exact h.echoes_text_bind hR hseparator fun s _ _ => hwrite _ _ _ hR
  all_goals exact echoes_fail _ hR

theorem echoes_insertBoolean (huses : uses call.scope .boolean) (hR : R c c') :
    Echoes rigor R (call.insertBoolean.answer? c) (call.insertBoolean.answer? c') := by
  have hmake : ∀ {key value c c'}, key = (if value then "True" else "False") → R c c' →
      Echoes rigor R ((Invocation.insertBoolean.make key value).answer? c)
        ((Invocation.insertBoolean.make key value).answer? c') := by
    intro key value c c' hkey hR
    obtain ⟨hid, hR'⟩ := h.boolean huses hR value hkey
    have hmade : ∀ c : Context, (Invocation.insertBoolean.make key value).answer? c =
        some (.ok (c.addBoolean none key value).1, (c.addBoolean none key value).2) := fun _ => rfl
    rw [hmade, hmade, hid]
    exact echoes_some _ hR'
  have hshared : ∀ {key value} found {c c'}, key = (if value then "True" else "False") → R c c' →
      Echoes rigor R ((Invocation.insertBoolean.shared key value found).answer? c)
        ((Invocation.insertBoolean.shared key value found).answer? c') := by
    intro key value found c c' hkey hR
    refine .get_bind ?_
    rcases found with _ | id
    · exact hmake hkey hR
    have hboolean : ∀ b, (c'.definition? id).map Definition.kind = some (.boolean b) ↔
        (c.definition? id).map Definition.kind = some (.boolean b) := by
      intro b
      rcases hd : c.definition? id with _ | d
      · rw [h.absent hR hd]
      · obtain ⟨d', hd', hposes⟩ := h.definition hR hd
        rw [hd', Option.map_some, Option.map_some, Option.some.injEq, Option.some.injEq]
        exact hposes.boolean b
    dsimp only
    split
    · rename_i b hb
      rw [(hboolean b).2 hb]
      exact echoes_pure _ hR
    · rename_i hb
      split
      · rename_i b hb'
        exact absurd ((hboolean b).1 hb') (hb b)
      · exact hmake hkey hR
  refine h.echoes_lookup?_bind call hR fun found _ => ?_
  refine (hshared found rfl hR).bind fun target _ _ _ hR => ?_
  exact (h.echoes_use call target hR).bind fun _ _ _ _ hR => echoes_pure _ hR

theorem echoes_addFootnote (ps : List Inline) (huses : uses call.scope .footnote) (hR : R c c') :
    Echoes rigor R ((call.addFootnote ps).answer? c) ((call.addFootnote ps).answer? c') := by
  have hnote : ∀ annotated body,
      Echoes rigor R ((Invocation.addFootnote.note call annotated body).answer? c)
        ((Invocation.addFootnote.note call annotated body).answer? c') := by
    intro annotated body
    refine (echoes_modify (h.number huses hR)).bind fun _ c₁ c₁' _ hR => .get_bind ?_
    rw [h.counter huses hR]
    exact echoes_pure _ hR
  rcases ps with _ | ⟨a, _ | ⟨b, _ | _⟩⟩
  case cons.nil => exact hnote _ _
  case cons.cons.nil => exact hnote _ _
  all_goals exact echoes_fail _ hR

omit h in
/-- Whether a condition stands for a truth value is seen without any effect. -/
theorem gives_booleanOf {p : Inline} {found : Option Bool} {c₁ : Context}
    (hfound : (Invocation.conditionValue.booleanOf p).Gives c (.ok found) c₁) : c₁ = c := by
  unfold Invocation.conditionValue.booleanOf at hfound
  split at hfound
  · exact (gives_pure.1 hfound).2
  · obtain ⟨d, -, hfound⟩ := gives_definition_bind.1 hfound
    split at hfound <;> exact (gives_pure.1 hfound).2

theorem echoes_booleanOf (p : Inline) (hR : R c c') :
    Echoes rigor R ((Invocation.conditionValue.booleanOf p).answer? c)
      ((Invocation.conditionValue.booleanOf p).answer? c') := by
  unfold Invocation.conditionValue.booleanOf
  split
  · exact echoes_pure _ hR
  · refine .definition_bind fun d hd => ?_
    obtain ⟨d', hd', hposes⟩ := h.definition hR hd
    refine ⟨d', hd', ?_⟩
    split
    · rename_i b hb
      rw [(hposes.boolean b).2 hb]
      exact echoes_pure _ hR
    · rename_i hb
      split
      · rename_i b hb'
        exact absurd ((hposes.boolean b).1 hb') (hb b)
      · exact echoes_pure _ hR

theorem echoes_conditionValue {p : Inline} (hR : R c c') (hp : readable c c' p) :
    Echoes rigor R ((call.conditionValue p).answer? c) ((call.conditionValue p).answer? c') := by
  refine (h.echoes_booleanOf p hR).bind_of_both fun found c₁ c₁' hfound hfound' _ => ?_
  obtain rfl := gives_booleanOf hfound
  obtain rfl := gives_booleanOf hfound'
  split
  · exact echoes_pure _ hR
  · refine h.echoes_text_bind hR hp fun text _ _ => ?_
    split
    · exact echoes_pure _ hR
    · exact echoes_fail _ hR

/-- Both runs go on from where they use the definition. -/
theorem echoes_use_bind {β : Type} {target : DefinitionId} {f g : PUnit → Engine β} (hR : R c c')
    (hf : R (c.addReference target call.scope.owner) (c'.addReference target call.scope.owner) →
      Echoes rigor R ((f ⟨⟩).answer? (c.addReference target call.scope.owner))
        ((g ⟨⟩).answer? (c'.addReference target call.scope.owner))) :
    Echoes rigor R ((call.use target >>= f).answer? c) ((call.use target >>= g).answer? c') := by
  refine (h.echoes_use call target hR).bind_of_both fun _ c₁ c₁' huse huse' hR₁ => ?_
  obtain ⟨-, rfl⟩ := gives_modify.1 huse
  obtain ⟨-, rfl⟩ := gives_modify.1 huse'
  exact hf hR₁

variable (hh : ∀ id {c c'}, nodes id c c' → R c c' →
  Echoes rigor R ((handle id).answer? c) ((handle' id).answer? c'))
include hh

theorem echoes_insertDefinition {ps : List Inline}
    (hp : ∀ p ∈ CommandKind.definition.plain ps, readable c c' p)
    (hy : ∀ y, call.LooksUp c .definition ps y → call.LooksUp c' .definition ps y →
      nodes y (c.addReference y call.scope.owner) (c'.addReference y call.scope.owner))
    (hR : R c c') :
    Echoes rigor R ((call.insertDefinition handle ps).answer? c)
      ((call.insertDefinition handle' ps).answer? c') := by
  rcases ps with _ | ⟨p, _ | _⟩
  case cons.nil =>
    refine h.echoes_text_bind hR (hp p (by simp [CommandKind.plain])) fun s hs hs' => .get_bind ?_
    rw [h.lookup_eq hR]
    refine (echoes_ofExcept _ hR).bind_of_both fun target c₁ c₁' htarget htarget' _ => ?_
    obtain ⟨htarget, rfl⟩ := gives_ofExcept_ok.1 htarget
    obtain ⟨-, rfl⟩ := gives_ofExcept_ok.1 htarget'
    have hl := Context.lookup?_of_lookup htarget
    have hnode := hy target (.definition hs hl) (.definition hs' ((h.lookup? hR _ _).trans hl))
    refine h.echoes_use_bind call hR fun hR => .definition_bind fun d hd => ?_
    obtain ⟨d', hd', hposes⟩ := h.definition hR hd
    refine ⟨d', hd', ?_⟩
    split
    · rename_i runs hruns
      rw [(hposes.multilingual runs).2 hruns]
      refine .get_bind ?_
      rw [h.equivalence hR]
      split
      · exact echoes_pure _ hR
      · exact echoes_fail _ hR
    · rename_i hruns
      split
      · rename_i runs hruns'
        exact absurd ((hposes.multilingual runs).1 hruns') (hruns runs)
      · exact (hh target hnode hR).bind fun _ _ _ _ hR => echoes_pure _ hR
  all_goals exact echoes_fail _ hR

theorem echoes_defaultSeparator
    (hy : ∀ y, c.lookup? Invocation.separatorKey call.scope.document = some y →
      nodes y (c.addReference y call.scope.owner) (c'.addReference y call.scope.owner))
    (hR : R c c') :
    Echoes rigor R ((call.defaultSeparator handle).answer? c)
      ((call.defaultSeparator handle').answer? c') := by
  refine h.echoes_lookup?_bind call hR fun found hl => ?_
  rcases found with _ | target
  · refine .get_bind ?_
    unfold Invocation.defaultSeparator.fallback
    rw [h.lineSeparator hR]
    exact echoes_pure _ hR
  · refine h.echoes_use_bind call hR fun hR => .definition_bind fun d hd => ?_
    obtain ⟨d', hd', hposes⟩ := h.definition hR hd
    refine ⟨d', hd', ?_⟩
    split
    · rename_i runs hruns
      rw [(hposes.multilingual runs).2 hruns]
      refine .get_bind ?_
      unfold Invocation.defaultSeparator.fallback
      rw [h.equivalence hR, h.lineSeparator hR]
      exact echoes_pure _ hR
    · rename_i hruns
      split
      · rename_i runs hruns'
        exact absurd ((hposes.multilingual runs).1 hruns') (hruns runs)
      · refine (hh target (hy target hl) hR).bind_of_both
          fun _ c₁ c₁' hhandled hhandled' hR₁ => .get_bind ?_
        rcases hs : c₁.segments? target with _ | segments
        · exact echoes_none _
        · obtain ⟨segments', hs', ha⟩ := h.segments? (hy target hl) hR hhandled hhandled' hR₁ hs
          rw [hs']
          simp only [ofOption, pure_bind]
          exact (echoes_normalize ha).bind fun s _ _ _ hR => echoes_pure _ hR

theorem echoes_joinLines {ps : List Inline}
    (hp : ∀ p ∈ CommandKind.lines.plain ps, readable c c' p)
    (hy : ∀ y, call.LooksUp c .lines ps y → call.LooksUp c' .lines ps y →
      nodes y (c.addReference y call.scope.owner) (c'.addReference y call.scope.owner))
    (hR : R c c') :
    Echoes rigor R ((call.joinLines handle ps).answer? c)
      ((call.joinLines handle' ps).answer? c') := by
  rcases ps with _ | ⟨separator, lines⟩
  · exact echoes_fail _ hR
  · refine h.echoes_text_bind hR (hp separator (by simp [CommandKind.plain])) fun s hs hs' => ?_
    split
    · rename_i hempty
      obtain rfl := String.isEmpty_iff.1 hempty
      have hnode : ∀ y, c.lookup? Invocation.separatorKey call.scope.document = some y →
          nodes y (c.addReference y call.scope.owner) (c'.addReference y call.scope.owner) :=
        fun y hl => hy y (.separator hs hl) (.separator hs' ((h.lookup? hR _ _).trans hl))
      exact (h.echoes_defaultSeparator call hh hnode hR).bind fun _ _ _ _ hR => echoes_pure _ hR
    · exact (echoes_pure _ hR).bind fun _ _ _ _ hR => echoes_pure _ hR

/-- What a command does with its executed parameters is an echo. -/
theorem echoes_run {kind : CommandKind} {ps : List Inline} (huses : uses call.scope kind)
    (hp : ∀ p ∈ kind.plain ps, readable c c' p) (hq : ∀ p ∈ ps, convertible c c' p)
    (hy : ∀ y, call.LooksUp c kind ps y → call.LooksUp c' kind ps y →
      nodes y (c.addReference y call.scope.owner) (c'.addReference y call.scope.owner))
    (hR : R c c') :
    Echoes rigor R ((call.run handle kind ps).answer? c)
      ((call.run handle' kind ps).answer? c') := by
  cases kind with
  | definition => exact h.echoes_insertDefinition call hh hp hy hR
  | boolean => exact h.echoes_insertBoolean call huses hR
  | lines => exact h.echoes_joinLines call hh hp hy hR
  | footnote => exact h.echoes_addFootnote call ps huses hR
  | abbreviation => exact h.echoes_expandAbbreviation call hp hR
  | ipaTranscribe => exact h.echoes_transcribe call hq hR
  | transliterate => exact h.echoes_transliterate call hp hq hR
  | ternary | language => exact echoes_fail _ hR

end

/-! ## Inlines -/

section
variable (hh : ∀ id {c c'}, nodes id c c' → R c c' →
  Echoes rigor R ((handle id).answer? c) ((handle' id).answer? c'))
include hh

omit hh in
/-- Inlines are executed alike, one after the other, if each of them is. -/
theorem echoes_executeList_of {scope : Scope} {tags : Tags} {l : List Inline}
    (hl : ∀ i ∈ l, ∀ rest {c c'}, admits scope tags (i :: rest) c c' → R c c' → Echoes rigor R
      ((i.execute handle scope tags).answer? c) ((i.execute handle' scope tags).answer? c'))
    (hadmits : admits scope tags l c c') (hR : R c c') :
    Echoes rigor R ((Inline.executeList handle scope tags l).answer? c)
      ((Inline.executeList handle' scope tags l).answer? c') := by
  induction l generalizing c c' with
  | nil =>
    rw [Inline.executeList, Inline.executeList]
    exact echoes_pure _ hR
  | cons i l ih =>
    rw [Inline.executeList, Inline.executeList]
    refine (hl i (by simp) l hadmits hR).bind_of_both fun _ _ _ hi hi' hR => ?_
    refine (ih (fun j hj => hl j (by simp [hj])) (h.later hadmits hi hi' hR) hR).bind ?_
    exact fun _ _ _ _ hR => echoes_pure _ hR

section
variable {scope : Scope} {tags own : Tags} {name : String} {kind : CommandKind}
  {ps rest : List Inline}
  (ih : ∀ p ∈ ps, ∀ tags rest {c c'}, admits scope tags (p :: rest) c c' → R c c' → Echoes rigor R
    ((p.execute handle scope tags).answer? c) ((p.execute handle' scope tags).answer? c'))
include ih

/-- A command whose parameters are executed first is an echo. -/
theorem echoes_command (ho : kind.resolvesOwnParameters = false)
    (hi : admits scope tags (.command name kind ps own .pending :: rest) c c') (hR : R c c') :
    Echoes rigor R
      (((Inline.command name kind ps own .pending).execute handle scope tags).answer? c)
      (((Inline.command name kind ps own .pending).execute handle' scope tags).answer? c') := by
  rw [Inline.execute_command ps own ho, Inline.execute_command ps own ho]
  refine .within ?_ _
  have hps := h.executes hi (.parameters ho) (.parameters ho) hR
  refine (h.echoes_executeList_of (fun p hp rest {_ _} => ih p hp _ rest) hps hR).bind_of_both
    fun out c₁ c₁' hexecuted hexecuted' hR₁ => ?_
  have hplain : ∀ p ∈ kind.plain out.1, readable c₁ c₁' p := fun p hp =>
    h.reads hi hR (.parameter ho hexecuted hp) (.parameter ho hexecuted' hp) hR₁
  have hconvertible := h.converts hi hR hexecuted hexecuted' hR₁
  have hnodes : ∀ y,
      Invocation.LooksUp { name, scope, tags := own.inherit tags } c₁ kind out.1 y →
      Invocation.LooksUp { name, scope, tags := own.inherit tags } c₁' kind out.1 y →
      nodes y (c₁.addReference y scope.owner) (c₁'.addReference y scope.owner) :=
    fun y hl hl' => h.inserts hi hR ⟨_, _, c₁, hexecuted, hl, rfl⟩
      ⟨_, _, c₁', hexecuted', hl', rfl⟩ (h.reference hR₁ y scope.owner)
  refine (h.echoes_run _ hh (h.uses hi) hplain hconvertible hnodes hR₁).bind ?_
  exact fun _ _ _ _ hR => echoes_pure _ hR

omit hh in
/-- A ternary is an echo: its condition comes first, and its value is the same in both runs. -/
theorem echoes_ternary {condition yes no : Inline} (hps : ps = [condition, yes, no])
    (hi : admits scope tags (.command name .ternary ps own .pending :: rest) c c') (hR : R c c') :
    Echoes rigor R
      (((Inline.command name .ternary ps own .pending).execute handle scope tags).answer? c)
      (((Inline.command name .ternary ps own .pending).execute handle' scope tags).answer? c') := by
  subst hps
  rw [Inline.execute, Inline.execute]
  refine .within ?_ _
  refine (ih condition (by simp) _ _ (h.executes hi .condition .condition hR) hR).bind_of_both
    fun out c₁ c₁' hcondition hcondition' hR₁ => ?_
  have hreadable := h.reads hi hR (.condition hcondition) (.condition hcondition') hR₁
  refine (h.echoes_conditionValue _ hR₁ hreadable).bind_of_both
    fun value c₂ c₂' hvalue hvalue' hR₂ => ?_
  obtain ⟨rfl, -⟩ := Invocation.gives_conditionValue_ok hvalue
  obtain ⟨rfl, -⟩ := Invocation.gives_conditionValue_ok hvalue'
  have hbranch := h.executes hi (.branch hcondition hvalue) (.branch hcondition' hvalue') hR₂
  cases value
  · exact (ih no (by simp) _ _ hbranch hR₂).bind fun _ _ _ _ hR => echoes_pure _ hR
  · exact (ih yes (by simp) _ _ hbranch hR₂).bind fun _ _ _ _ hR => echoes_pure _ hR

omit hh in
/-- A language command is an echo: its tag comes first, and is of one language in both runs. -/
theorem echoes_language {tag body : Inline} (hps : ps = [tag, body])
    (hi : admits scope tags (.command name .language ps own .pending :: rest) c c') (hR : R c c') :
    Echoes rigor R
      (((Inline.command name .language ps own .pending).execute handle scope tags).answer? c)
      (((Inline.command name .language ps own .pending).execute handle' scope tags).answer?
        c') := by
  subst hps
  rw [Inline.execute, Inline.execute]
  refine .within ?_ _
  refine (ih tag (by simp) _ _ (h.executes hi .tag .tag hR) hR).bind_of_both
    fun out c₁ c₁' htag htag' hR₁ => ?_
  have hreadable := h.reads hi hR (.tag htag) (.tag htag') hR₁
  refine h.echoes_text_bind hR₁ hreadable fun s hs hs' => ?_
  refine (echoes_languageOf _ s hR₁).bind_of_both fun language c₂ c₂' hlanguage hlanguage' _ => ?_
  obtain ⟨hread, rfl⟩ := Invocation.gives_languageOf_ok hlanguage
  obtain ⟨-, rfl⟩ := Invocation.gives_languageOf_ok hlanguage'
  have hbody := h.executes hi (.body htag hs hread) (.body htag' hs' hread) hR₁
  exact (ih body (by simp) _ _ hbody hR₁).bind fun _ _ _ _ hR => echoes_pure _ hR

end

/-- The execution of what may be executed is an echo. -/
theorem echoes_execute {scope : Scope} {tags : Tags} {rest : List Inline} (i : Inline)
    (hi : admits scope tags (i :: rest) c c') (hR : R c c') :
    Echoes rigor R ((i.execute handle scope tags).answer? c)
      ((i.execute handle' scope tags).answer? c') := by
  induction i using Inline.induction generalizing tags rest c c' with
  | run text own =>
    rw [Inline.execute, Inline.execute]
    exact echoes_pure _ hR
  | span l own ih =>
    rw [Inline.execute_span, Inline.execute_span]
    refine (h.echoes_executeList_of (fun i hmem rest {_ _} => ih i hmem) (h.span hi) hR).bind ?_
    exact fun _ _ _ _ hR => echoes_pure _ hR
  | command name kind ps own evaluation ih _ =>
    by_cases he : evaluation = .pending
    case neg =>
      rw [Inline.execute_executed he, Inline.execute_executed he]
      exact echoes_pure _ hR
    subst he
    have hps : ∀ p ∈ ps, ∀ tags rest {c c'}, admits scope tags (p :: rest) c c' → R c c' →
        Echoes rigor R ((p.execute handle scope tags).answer? c)
          ((p.execute handle' scope tags).answer? c') :=
      fun p hmem tags rest {_ _} => ih p hmem
    rcases ho : kind.resolvesOwnParameters with _ | _
    · exact h.echoes_command hh hps ho hi hR
    · rcases Inline.execute_ownParameters name ps own ho with
        ⟨condition, yes, no, rfl, he⟩ | ⟨tag, body, rfl, he⟩ | ⟨cause, hfail⟩
      · exact h.echoes_ternary hps he hi hR
      · exact h.echoes_language hps he hi hR
      · rw [hfail, hfail]
        exact .within (echoes_fail _ hR) _

/-- **The execution of inlines echoes that from the other context**, if the passes that they run
    do. -/
theorem echoes_executeList {scope : Scope} {tags : Tags} {l : List Inline}
    (hl : admits scope tags l c c') (hR : R c c') :
    Echoes rigor R ((Inline.executeList handle scope tags l).answer? c)
      ((Inline.executeList handle' scope tags l).answer? c') :=
  h.echoes_executeList_of (fun i _ _ {_ _} => h.echoes_execute hh i) hl hR

end

end Concurs

end Rubric
