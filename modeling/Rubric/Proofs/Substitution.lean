/-
  Rubric — handling commands substitutes values.

  * `Context.Tracks c₀ c`: `c` is sound, and faithful to what `c₀` has written;
    `Carries c₀`: the command pass leads from such contexts to such;
  * `matches_effects`: what a command stands for matches its value;
    `matches_executeList`: so do executed inlines;
  * `secures_commandPass_value`, `secures_handleCommands_value`: a definition
    whose commands are handled has a value;
  * **`text_of_handled`**: its text is that value, whatever was handled before and
    in whatever order.
-/
import Rubric.Proofs.Closure
import Rubric.Proofs.Spelling

namespace Rubric

open Context Text

variable {c₀ c c' : Context}

/-! ## Contexts that are kept faithful -/

/-- The kinds of command that have values. -/
def CommandKind.Substitutes (kind : CommandKind) : Prop :=
  kind = .definition ∨ kind = .ternary ∨ kind = .lines

instance : DecidablePred CommandKind.Substitutes := fun kind =>
  inferInstanceAs (Decidable (kind = .definition ∨ kind = .ternary ∨ kind = .lines))

namespace Context

/-- All texts of the context use commands of these kinds only. -/
def Uses (kinds : CommandKind → Prop) (c : Context) : Prop :=
  ∀ d ∈ c.definitions, ∀ content ∈ d.kind.contents,
    ∀ inlines ∈ (Markup.parse c.commands content.source).toOption, ∀ i ∈ inlines, i.Uses kinds

instance (kinds : CommandKind → Prop) [DecidablePred kinds] (c : Context) :
    Decidable (c.Uses kinds) :=
  inferInstanceAs (Decidable (∀ d ∈ c.definitions, ∀ content ∈ d.kind.contents,
    ∀ inlines ∈ (Markup.parse c.commands content.source).toOption, ∀ i ∈ inlines, i.Uses kinds))

/-- What was written is not changed by calls, and uses what it did. -/
theorem Uses.of_content {kinds : CommandKind → Prop} (hu : c₀.Uses kinds)
    (h : c.unresolved = c₀.unresolved) {x : DefinitionId} {d : Definition} {content : Content}
    {inlines : List Inline} (hd : c.definition? x = some d) (hmem : content ∈ d.kind.contents)
    (hp : Markup.parse c₀.commands content.source = .ok inlines) :
    ∀ i ∈ inlines, i.Uses kinds := by
  obtain ⟨d₀, hd₀, -, content₀, hmem₀, hsource⟩ := content_of_unresolved_eq h hd hmem
  refine hu d₀ (Array.mem_of_getElem? hd₀) content₀ hmem₀ inlines ?_
  rw [hsource, hp]; rfl

theorem Faithful.of_core_eq (hf : c₀.Faithful c) (h : c'.core = c.core) : c₀.Faithful c' := by
  have hdefinition : ∀ {x d'}, c'.definition? x = some d' →
      ∃ d, c.definition? x = some d ∧ d.kind = d'.kind ∧ d.document = d'.document := by
    intro x d' hd'
    obtain ⟨references, hd⟩ := definition?_of_core_eq h.symm hd'
    exact ⟨_, hd, rfl, rfl⟩
  constructor
  · exact (unresolved_of_core_eq h).trans hf.unresolved
  · intro x d' reference t hd' hk ht
    obtain ⟨d, hd, hkind, hdocument⟩ := hdefinition hd'
    rw [← hdocument]
    exact hf.targets hd (hkind.trans hk) ht
  · intro x d' content tags hd' hmem hhandled htags
    obtain ⟨d, hd, hkind, hdocument⟩ := hdefinition hd'
    rw [← hkind] at hmem
    rw [← hdocument]
    exact hf.contents hd hmem hhandled htags

/-- A change of one definition that leaves what was written, and makes its target or its texts
    those of what was written. -/
theorem Faithful.modifyKind {id : DefinitionId} {f : DefinitionKind → DefinitionKind}
    (hf : c₀.Faithful c) (hunresolved : ∀ kind, (f kind).unresolved = kind.unresolved)
    (htarget : ∀ {d reference t}, c.definition? id = some d → f d.kind = .partReference reference →
      reference.target = some t → c₀.lookup? reference.targetKey d.document = some t)
    (hcontents : ∀ {d content tags}, c.definition? id = some d → content ∈ (f d.kind).contents →
      content.IsHandled → c₀.effectiveTags? id = some tags →
        content.Matches c₀ d.document tags.language) :
    c₀.Faithful (c.modifyDefinition id fun d => { d with kind := f d.kind }) := by
  constructor
  · exact (unresolved_modifyKind hunresolved).trans hf.unresolved
  · intro x d' reference t hd' hk ht
    obtain ⟨d, hd, rfl⟩ := definition?_modifyKind hd'
    dsimp only at hk ⊢
    by_cases he : id = x
    · subst he
      rw [if_pos rfl] at hk
      exact htarget hd hk ht
    · rw [if_neg he] at hk
      exact hf.targets hd hk ht
  · intro x d' content tags hd' hmem hhandled htags
    obtain ⟨d, hd, rfl⟩ := definition?_modifyKind hd'
    dsimp only at hmem ⊢
    by_cases he : id = x
    · subst he
      rw [if_pos rfl] at hmem
      exact hcontents hd hmem hhandled htags
    · rw [if_neg he] at hmem
      exact hf.contents hd hmem hhandled htags

/-- A part reference gets the target that its key leads to. -/
theorem Faithful.setTarget {id target : DefinitionId} {d : Definition} {reference : PartReference}
    (hf : c₀.Faithful c) (hd : c.definition? id = some d) (hk : d.kind = .partReference reference)
    (hl : c₀.lookup? reference.targetKey d.document = some target) :
    c₀.Faithful (c.setTarget id target) := by
  rw [setTarget_eq]
  refine hf.modifyKind (DefinitionKind.unresolved_setTarget target) ?_ ?_
  · intro d' reference' t hd' hk' ht
    obtain rfl : d = d' := Option.some.inj (hd.symm.trans hd')
    rw [hk] at hk'
    cases hk'
    cases ht
    exact hl
  · intro d' content tags hd' hmem
    obtain rfl : d = d' := Option.some.inj (hd.symm.trans hd')
    rw [hk] at hmem
    cases hmem

/-- A text gets inlines that match what was written. -/
theorem Faithful.resolveCommands {id : DefinitionId} {l : List Inline} (hf : c₀.Faithful c)
    (h : ∀ {d content tags}, c.definition? id = some d → content ∈ d.kind.contents →
      c₀.effectiveTags? id = some tags →
        (content.resolveCommands l).Matches c₀ d.document tags.language) :
    c₀.Faithful (c.modifyContent id fun content => content.resolveCommands l) := by
  rw [modifyContent_eq]
  refine hf.modifyKind (DefinitionKind.unresolved_mapContents fun _ => rfl) ?_ ?_
  · intro d reference t hd hk ht
    -- a change of texts leaves part references
    rcases hkind : d.kind with _ | _ | _ | reference' | _ | _ | _ <;>
      rw [hkind] at hk <;> cases hk
    exact hf.targets hd hkind ht
  · intro d content' tags hd hmem' _ htags
    obtain ⟨content, hmem, rfl⟩ := DefinitionKind.mem_contents_mapContents.1 hmem'
    exact h hd hmem htags

theorem IsFresh.faithful (h : c₀.IsFresh) : c₀.Faithful c₀ := by
  refine ⟨rfl, fun {x d reference t} hd hk ht => ?_, fun {x d content tags} hd hmem hh _ => ?_⟩
  · have hnone := h.target hd
    rw [hk, DefinitionKind.target?, ht] at hnone
    cases hnone
  · exact absurd (h.contents hd content hmem) hh

/-- The context is sound, and faithful to what `c₀` has written. -/
structure Tracks (c₀ c : Context) : Prop where
  sound : c.IsSound
  faithful : c₀.Faithful c

theorem Tracks.of_core_eq (h : c₀.Tracks c) (he : c'.core = c.core) : c₀.Tracks c' :=
  ⟨(Step.of_core_eq he : Step .commands c c').isSound h.sound, h.faithful.of_core_eq he⟩

theorem Tracks.addReference (h : c₀.Tracks c) (definition user : DefinitionId) :
    c₀.Tracks (c.addReference definition user) :=
  h.of_core_eq (c.core_addReference definition user)

/-- From a context that tracks `c₀`, steps of the command pass lead to the other one, which
    tracks it, too. -/
def Carries (c₀ c c' : Context) : Prop :=
  c₀.Tracks c → Steps .commands c c' ∧ c₀.Tracks c'

theorem Carries.of_core_eq (he : c'.core = c.core) : Carries c₀ c c' :=
  fun h => ⟨Step.steps (.of_core_eq he), h.of_core_eq he⟩

theorem composes_carries (c₀ : Context) : Engine.Composes (Carries c₀) where
  refl c h := ⟨.refl c, h⟩
  trans h₁ h₂ h := by
    obtain ⟨hsteps, h⟩ := h₁ h
    obtain ⟨hsteps', h⟩ := h₂ h
    exact ⟨hsteps.trans hsteps', h⟩

/-- Commands that have values carry contexts on; the others add definitions and numbers. -/
theorem permits_carries (c₀ : Context) : Permits CommandKind.Substitutes (Carries c₀) where
  toComposes := composes_carries c₀
  warn c warnings := .of_core_eq (c.core_warnAll warnings)
  reference c definition user := .of_core_eq (c.core_addReference definition user)
  number h := by simp [CommandKind.Substitutes] at h
  boolean h := by simp [CommandKind.Substitutes] at h

end Context

/-! ## Texts of executed inlines -/

section
variable {document : Option DocumentId} {language : Option Language}

/-- The text of an executed inline is the value of what was written. -/
theorem Context.Tracks.inlineText? (ht : c₀.Tracks c) (hfont : c₀.IsFontless) {i i' : Inline}
    (hm : Inline.Matches c₀ document language i i') (hd : i'.IsDone c) :
    ∃ v, i.denote c₀ c₀.value? document language = some v ∧ c.inlineText? i' = some v := by
  obtain ⟨v, hv⟩ := hm.value
  have hvoices : ∀ t ∈ Inline.shownTargets [i'], Inline.Voices c₀.value? c.segments? t := by
    intro t hmem
    exact ht.faithful.voices hfont (hd.targets t (Inline.targets_of_shownTargets hmem)).1
  obtain ⟨s, hs, hspells⟩ := hm.speaks (fun _ _ h => h) hvoices hv .unset .unset
  refine ⟨v, hv, ?_⟩
  rw [Context.inlineText?, inlineSegments?, hs, Option.map_some, hspells.text]

/-- The truth value of an executed condition is the one that its value denotes. -/
theorem Context.Tracks.readTruth (ht : c₀.Tracks c) (hfont : c₀.IsFontless) {call : Invocation}
    {i i' : Inline} {value : Bool} (hm : Inline.Matches c₀ document language i i')
    (hd : i'.IsDone c) (h : (call.conditionValue i').Gives c (.ok value) c') :
    ∃ v, i.denote c₀ c₀.value? document language = some v ∧ readTruth v = some value := by
  obtain ⟨v, hv, htext⟩ := ht.inlineText? hfont hm hd
  refine ⟨v, hv, ?_⟩
  obtain ⟨-, ⟨id, d, htarget, hid, hk⟩ | ⟨s, hs, hread⟩⟩ := Invocation.gives_conditionValue_ok h
  · -- the text of a boolean denotes it
    have hsegments : c.segments? id = some [{ text := if value then "true" else "false" }] := by
      refine segments?_of_within (n := 1) ?_
      rw [segmentsWithin_succ, hid, Option.bind_some, hk]; rfl
    rw [Context.inlineText?, inlineSegments?, Inline.segments_of_target? htarget,
      hsegments] at htext
    cases htext
    cases value <;> decide
  · rw [htext] at hs
    cases hs
    exact hread

end

/-! ## Execution -/

/-- The run that a command selects is the one for its language, and has no font. -/
theorem Invocation.selectRun_fontless {call : Invocation} {runs : RunCollection} {run : Run}
    (h : call.selectRun runs c.settings.equivalence = some run)
    (hfont : ∀ run ∈ runs.runs, run.tags.IsFontless) :
    (c.runFor call.tags.language runs).map Run.text = some run.text ∧ run.tags.IsFontless := by
  rw [selectRun_eq] at h
  obtain ⟨found, hfound, rfl⟩ := Option.map_eq_some_iff.1 h
  have hfontless := hfont found (mem_of_runFor hfound)
  rw [hfound, Option.map_some]
  rcases found with ⟨text, language, _ | name | _⟩
  · exact ⟨rfl, rfl⟩
  · cases hfontless
  · exact ⟨rfl, rfl⟩

section
variable {handle : DefinitionId → Engine Unit} (hfont : c₀.IsFontless)
  (hh : ∀ id, (handle id).Secures c₀.Tracks (Steps .commands) fun _ c =>
    c.Resolved id ∧ ∃ v, c₀.value? id = some v)
include hfont hh

/-- The separator of lines that gives none has the value of the separator. -/
theorem separatorValue_of_separates {call : Invocation} {separator : Inline} (ht : c₀.Tracks c)
    (h : Invocation.Separates handle call c separator c') :
    ∃ text own, separator = .run text own ∧ own.IsFontless ∧
      c₀.separatorValue c₀.value? call.scope.document call.tags.language = some text := by
  cases h with
  | settings hl =>
    refine ⟨_, _, rfl, .unicode none, ?_⟩
    rw [separatorValue_of_settings ht.faithful.unresolved hl,
      settings_of_unresolved_eq ht.faithful.unresolved]
  | @selected target d runs hl hd hk =>
    have hu := (ht.addReference target call.scope.owner).faithful.unresolved
    rw [← lookup?_addReference c target call.scope.owner] at hl
    have hsettings := settings_of_unresolved_eq ht.faithful.unresolved
    rw [separatorValue_of_runs hu hl hd hk, ← hsettings,
      ← runFor_of_unresolved_eq ht.faithful.unresolved]
    rcases hrun : call.selectRun runs c.settings.equivalence with _ | run
    · rw [Invocation.selectRun_eq, Option.map_eq_none_iff] at hrun
      rw [hrun]
      exact ⟨_, _, rfl, .unicode none, rfl⟩
    · obtain ⟨d₀, hd₀, hk₀⟩ := definition?_multilingual hu hd hk
      obtain ⟨htext, ho⟩ := Invocation.selectRun_fontless hrun (hfont.runs hd₀ hk₀)
      rw [htext]
      exact ⟨run.text, run.tags, rfl, ho, rfl⟩
  | @definition target d c₁ segments hl hd hm hhandle hs =>
    have hused := ht.addReference target call.scope.owner
    rw [← lookup?_addReference c target call.scope.owner] at hl
    obtain ⟨ht₁, -, hvalue⟩ := hh target _ _ _ hused hhandle
    obtain ⟨hr, v, hv⟩ := hvalue () rfl
    obtain ⟨s, hs', hspells⟩ := ht₁.faithful.voices hfont hr v hv
    rw [hs] at hs'
    cases hs'
    rw [separatorValue_of_definition hused.faithful.unresolved hl hd hm, hv]
    exact ⟨_, _, rfl, .unicode none, by rw [hspells.normalize]⟩

/-- What a command that has a value becomes matches it. -/
theorem matches_effects {call : Invocation} {name : String} {kind : CommandKind}
    {written ps : List Inline} {effect : Effect} (hkind : kind.Substitutes) (ht : c₀.Tracks c)
    (hps : List.Forall₂ (Inline.Matches c₀ call.scope.document call.tags.language) written ps)
    (hdone : ∀ i ∈ ps, i.IsDone c) (h : Invocation.Effects handle call c kind ps effect c') :
    Inline.Matches c₀ call.scope.document call.tags.language
      (.command name kind written .unset .pending)
      (.command name kind ps .unset (.of effect.output effect.footnote)) := by
  have htext : ∀ {i i' s}, Inline.Matches c₀ call.scope.document call.tags.language i i' →
      i' ∈ ps → c.inlineText? i' = some s →
        i.denote c₀ c₀.value? call.scope.document call.tags.language = some s := by
    intro i i' s hm hi hs
    obtain ⟨v, hv, hs'⟩ := ht.inlineText? hfont hm (hdone i' hi)
    rw [hv, ← hs', hs]
  cases h with
  | @definition p key target d _ hkey hl hd hm hhandle =>
    rcases hps with _ | ⟨hp, _ | _⟩
    have hused := ht.addReference target call.scope.owner
    rw [← lookup?_addReference c target call.scope.owner] at hl
    obtain ⟨-, -, hvalue⟩ := hh target _ _ _ hused hhandle
    refine Inline.matches_definition (htext hp (by simp) hkey) (fun valueOf => ?_) (hvalue () rfl).2
    exact insertedValue_of_definition hused.faithful.unresolved hl hd hm
  | @value p key target d runs run hkey hl hd hk hrun =>
    rcases hps with _ | ⟨hp, _ | _⟩
    have hu := (ht.addReference target call.scope.owner).faithful.unresolved
    rw [← lookup?_addReference c target call.scope.owner] at hl
    obtain ⟨d₀, hd₀, hk₀⟩ := definition?_multilingual hu hd hk
    obtain ⟨hselected, ho⟩ := Invocation.selectRun_fontless hrun (hfont.runs hd₀ hk₀)
    refine Inline.matches_value (htext hp (by simp) hkey) (fun valueOf => ?_) ho
    rw [insertedValue_of_runs hu hl hd hk,
      ← runFor_of_unresolved_eq ht.faithful.unresolved, hselected]
  | @lines separator lines text hs hempty =>
    rcases hps with _ | ⟨hp, hlines⟩
    refine Inline.matches_lines (htext hp (by simp) hs) (by rw [hempty]; rfl) hlines ?_
    exact fun hvalue hdenote hvoices => hp.speaks hvalue hvoices hdenote
  | @defaultLines separator default lines text _ hs hempty hdefault =>
    rcases hps with _ | ⟨hp, hlines⟩
    obtain ⟨joint, own, rfl, ho, hjoint⟩ := separatorValue_of_separates hfont hh ht hdefault
    refine Inline.matches_lines (htext hp (by simp) hs) (by rw [hempty]; exact hjoint) hlines ?_
    exact fun _ _ _ => Inline.speaks_run joint ho
  | sharedBoolean | newBoolean | footnote => simp [CommandKind.Substitutes] at hkind
  | text hmem =>
    exfalso
    rcases hkind with rfl | rfl | rfl <;> simp at hmem

variable (hs : ∀ id, (handle id).Secures IsSound (Steps .commands) fun _ c => c.Resolved id)

omit hfont in
theorem carries_handle (id : DefinitionId) : (handle id).Moves (Carries c₀) := by
  intro c r c' h ht
  obtain ⟨ht', hsteps, -⟩ := hh id _ _ _ ht h
  exact ⟨hsteps, ht'⟩

include hs

/-- **Executed inlines match what was written.** -/
theorem matches_executeList {scope : Scope} {tags : Tags} {l l' : List Inline}
    {notes : List Footnote} (hl : ∀ i ∈ l, i.IsFresh)
    (hu : ∀ i ∈ l, i.Uses CommandKind.Substitutes) (ht : c₀.Tracks c)
    (h : (Inline.executeList handle scope tags l).Gives c (.ok (l', notes)) c') :
    (Steps .commands c c' ∧ c₀.Tracks c') ∧ (∀ i ∈ l', i.IsDone c') ∧
      List.Forall₂ (Inline.Matches c₀ scope.document tags.language) l l' := by
  have hrules : Inline.ExecutionRules handle scope
      (fun tags i c i' _ c' => i.IsFresh → i.Uses CommandKind.Substitutes → c₀.Tracks c →
        (Steps .commands c c' ∧ c₀.Tracks c') ∧ i'.IsDone c' ∧
          Inline.Matches c₀ scope.document tags.language i i')
      (fun tags l c l' _ c' => (∀ i ∈ l, i.IsFresh) →
        (∀ i ∈ l, i.Uses CommandKind.Substitutes) → c₀.Tracks c →
        (Steps .commands c c' ∧ c₀.Tracks c') ∧ (∀ i ∈ l', i.IsDone c') ∧
          List.Forall₂ (Inline.Matches c₀ scope.document tags.language) l l') := by
    refine ⟨?run, ?span, ?executed, ?ternary, ?language, ?command, ?nil, ?cons⟩
    case run =>
      intro tags text own c hfresh _ ht
      obtain ⟨rfl, -⟩ := hfresh _ (Inline.self_mem_nested _)
      exact ⟨⟨.refl c, ht⟩, Inline.isDone_run text .unset, Inline.matches_run text⟩
    case span =>
      intro tags l own c l' notes c' ih hfresh hu ht
      obtain ⟨rfl, hl⟩ := Inline.isFresh_span.1 hfresh
      obtain ⟨hcarries, hdone, hm⟩ := ih hl hu.of_span ht
      exact ⟨hcarries, Inline.isDone_span.2 hdone, Inline.matches_span hm⟩
    case executed =>
      intro tags name kind parameters own evaluation c he hfresh _ _
      exact absurd (Inline.isFresh_command.1 hfresh).2.1 he
    case ternary =>
      intro _ _ condition yes no _ c condition' _ c₁ value chosen _ c' ihc hvalue ihb hfresh hu ht
      obtain ⟨rfl, -, hl⟩ := Inline.isFresh_command.1 hfresh
      have hu := hu.of_command.2
      have hyes : yes.IsFresh := hl yes (by simp)
      have hno : no.IsFresh := hl no (by simp)
      obtain ⟨⟨hsteps, ht₁⟩, hdone, hcondition⟩ := ihc (hl _ (by simp)) (hu _ (by simp)) ht
      obtain ⟨⟨hsteps', ht'⟩, hchosen, hm⟩ :=
        ihb (by cases value <;> assumption) (hu _ (by cases value <;> simp)) ht₁
      obtain ⟨text, htext, hread⟩ := ht₁.readTruth hfont hcondition hdone hvalue
      refine ⟨⟨hsteps.trans hsteps', ht'⟩, ?_, ?_⟩
      · exact Inline.isDone_ternary value (hdone.steps hsteps') hchosen hyes hno
      · exact Inline.matches_ternary htext hread hm (by cases value <;> rfl)
    case language =>
      intro tags name tag body own c _ _ _ _ _ _ _ _ _ _ hu _
      have hkind := hu.of_command.1
      simp [CommandKind.Substitutes] at hkind
    case command =>
      intro tags name kind parameters own c parameters' notes c₁ effect c' _ ihp hrun hfresh hu ht
      obtain ⟨rfl, -, hl⟩ := Inline.isFresh_command.1 hfresh
      obtain ⟨hkind, hu⟩ := hu.of_command
      obtain ⟨⟨hsteps, ht₁⟩, hps, hm⟩ := ihp hl hu ht
      obtain ⟨hsteps', ht'⟩ := Invocation.run_moves (permits_carries c₀) (carries_handle hh) _
        hkind parameters' _ _ _ hrun ht₁
      have heffects := Invocation.effects_of_run hrun
      refine ⟨⟨hsteps.trans hsteps', ht'⟩, ?_, ?_⟩
      · exact isDone_effects hs ht₁.sound hsteps' hps heffects
      · exact matches_effects hfont hh hkind ht₁ hm hps heffects
    case nil =>
      intro tags c _ _ ht
      exact ⟨⟨.refl c, ht⟩, by simp, .nil⟩
    case cons =>
      intro tags i l c i' notes c₁ l' more c' ihi ihl hfresh hu ht
      obtain ⟨⟨hsteps, ht₁⟩, hi, hm⟩ := ihi (hfresh _ (by simp)) (hu _ (by simp)) ht
      obtain ⟨⟨hsteps', ht'⟩, hl, hms⟩ :=
        ihl (fun j hj => hfresh j (by simp [hj])) (fun j hj => hu j (by simp [hj])) ht₁
      refine ⟨⟨hsteps.trans hsteps', ht'⟩, fun j hj => ?_, .cons hm hms⟩
      rcases List.mem_cons.1 hj with rfl | hj
      · exact hi.steps hsteps'
      · exact hl j hj
  exact hrules.inlines h hl hu ht

/-! ## The command pass -/

/-- Reading a source and executing its commands yields inlines that match what was written. -/
theorem matches_resolveSource {id : DefinitionId} {d : Definition} {source : String}
    {r : Except Error (List Inline)}
    (hu : ∀ inlines, Markup.parse c₀.commands source = .ok inlines →
      ∀ i ∈ inlines, i.Uses CommandKind.Substitutes)
    (ht : c₀.Tracks c) (hd : c.definition? id = some d)
    (h : (Engine.resolveSource handle id source).Gives c r c') :
    c₀.Tracks c' ∧ ∀ l tags, r = .ok l → c₀.effectiveTags? id = some tags →
      ∃ written, Markup.parse c₀.commands source = .ok written ∧
        List.Forall₂ (Inline.Matches c₀ d.document tags.language) written l := by
  rcases Engine.gives_resolveSource h with
    ⟨_, -, rfl, rfl⟩ | ⟨written, tags, d', hp, htags, hd', hends⟩
  · exact ⟨ht, by simp⟩
  · obtain rfl : d = d' := Option.some.inj (hd.symm.trans hd')
    rw [commands_of_unresolved_eq ht.faithful.unresolved] at hp
    rw [effectiveTags?_of_unresolved_eq ht.faithful.unresolved] at htags
    rcases hends with ⟨e, rfl, hl⟩ | ⟨l, notes, c₁, rfl, hl, rfl⟩
    · have hmoves := Inline.executeList_moves (permits_carries c₀) (carries_handle hh) written
        (hu written hp) tags _ _ _ hl
      exact ⟨(hmoves ht).2, by rintro l tags ⟨⟩⟩
    · obtain ⟨⟨-, ht₁⟩, -, hm⟩ := matches_executeList hfont hh hs
        (Markup.isFresh_of_mem_parse hp) (hu written hp) ht hl
      refine ⟨ht₁.of_core_eq (c₁.core_modifyFootnotes d.document _), ?_⟩
      rintro _ tags' ⟨⟩ htags'
      cases Option.some.inj (htags.symm.trans htags')
      exact ⟨written, hp, hm⟩

variable (hu : c₀.Uses CommandKind.Substitutes)
include hu

theorem tracks_resolveContent {id : DefinitionId} {d : Definition} {content : Content}
    {r : Except Error Unit} (ht : c₀.Tracks c) (hd : c.definition? id = some d)
    (hmem : content ∈ d.kind.contents)
    (h : (Engine.resolveContent handle id content).Gives c r c') :
    c₀.Tracks c' ∧ (r = .ok () → ∀ tags, c₀.effectiveTags? id = some tags →
      ∃ v, c₀.sourceValue c₀.value? d.document tags.language content.source = some v) := by
  have hsource : ∀ inlines, Markup.parse c₀.commands content.source = .ok inlines →
      ∀ i ∈ inlines, i.Uses CommandKind.Substitutes :=
    fun _ => hu.of_content ht.faithful.unresolved hd hmem
  have hsteps := (steps_resolveContent hs ht.sound hd hmem h).1
  rcases Engine.gives_resolveContent h with
    ⟨hhandled, rfl, rfl⟩ | ⟨hstage, r₁, c₁, hgives, ⟨e, rfl, rfl, rfl⟩ | ⟨l, rfl, rfl, rfl⟩⟩
  · exact ⟨ht, fun _ tags htags => (ht.faithful.contents hd hmem hhandled htags).value⟩
  · exact ⟨(matches_resolveSource hfont hh hs hsource ht hd hgives).1, by simp⟩
  · obtain ⟨ht₁, hm⟩ := matches_resolveSource hfont hh hs hsource ht hd hgives
    have hmatches : ∀ {tags}, c₀.effectiveTags? id = some tags →
        (content.resolveCommands l).Matches c₀ d.document tags.language :=
      fun htags => hm l _ rfl htags
    refine ⟨⟨hsteps.isSound ht.sound, ?_⟩, fun _ tags htags => (hmatches htags).value⟩
    refine ht₁.faithful.resolveCommands ?_
    -- the node has the one text that it had before
    intro d' content' tags hd' hmem' htags
    obtain ⟨d₀, hd₀, hdocument, content₀, hmem₀, hsource₀⟩ := content_of_unresolved_eq
      (ht₁.faithful.unresolved.trans ht.faithful.unresolved.symm) hd' hmem'
    obtain rfl : d = d₀ := Option.some.inj (hd.symm.trans hd₀)
    rw [DefinitionKind.contents_eq_of_mem hmem, List.mem_singleton] at hmem₀
    subst hmem₀
    obtain ⟨written, hp, hall⟩ := hmatches htags
    rw [hdocument] at hall
    have hp' : Markup.parse c₀.commands content'.source = .ok written := hsource₀ ▸ hp
    exact ⟨written, hp', hall⟩

/-- The command pass of a node keeps to what was written, and leaves the node with a value. -/
theorem secures_commandPass_value (id : DefinitionId) :
    (Engine.commandPass handle id).Secures c₀.Tracks (Steps .commands) fun _ c =>
      c.Resolved id ∧ ∃ v, c₀.value? id = some v := by
  intro c r c' ht h
  obtain ⟨hsound, hsteps, hresolved⟩ := secures_commandPass hs id _ _ _ ht.sound h
  suffices hgoal : c₀.Tracks c' ∧ (r = .ok () → ∃ v, c₀.value? id = some v) from
    ⟨hgoal.1, hsteps, fun _ hr => ⟨hresolved () hr, hgoal.2 hr⟩⟩
  obtain ⟨d, hd, hpasses⟩ := Engine.gives_commandPass h
  have hwritten := ht.faithful.unresolved
  obtain ⟨tags, htags⟩ := ht.sound.effectiveTags? hd
  have htags₀ : c₀.effectiveTags? id = some tags :=
    (effectiveTags?_of_unresolved_eq hwritten id).symm.trans htags
  have hvalue : (∃ v, c₀.kindValue c₀.value? d.document tags.language d.kind = some v) →
      ∃ v, c₀.value? id = some v := by
    rintro ⟨v, hv⟩
    exact ⟨v, value?_of_unresolved_eq hwritten hd htags hv⟩
  -- a part reference has the value of its target
  have htarget : ∀ {c₁ r reference target}, c₀.Tracks c₁ → d.kind = .partReference reference →
      c₀.lookup? reference.targetKey d.document = some target → (handle target).Gives c₁ r c' →
        c₀.Tracks c' ∧ (r = .ok () → ∃ v, c₀.value? id = some v) := by
    intro c₁ r reference target ht₁ hk hl hgives
    obtain ⟨ht', -, hhandled⟩ := hh target _ _ _ ht₁ hgives
    refine ⟨ht', fun hr => hvalue ?_⟩
    obtain ⟨-, v, hv⟩ := hhandled () hr
    exact ⟨v, by rw [hk, kindValue, hl, Option.bind_some, hv]⟩
  cases hpasses with
  | @parts r₁ r₂ c₁ _ hkind htext hparts =>
    have htext : c₀.Tracks c₁ ∧ (r₁ = .ok () → ∀ content ∈ d.kind.contents,
        ∃ v, c₀.sourceValue c₀.value? d.document tags.language content.source = some v) := by
      rcases htext with ⟨hnil, rfl, rfl⟩ | ⟨content, hmem, hcontent⟩
      · exact ⟨ht, fun _ => by rw [hnil]; simp⟩
      · obtain ⟨ht₁, hsource⟩ := tracks_resolveContent hfont hh hs hu ht hd hmem hcontent
        refine ⟨ht₁, fun hr => ?_⟩
        rw [DefinitionKind.contents_eq_of_mem hmem]
        intro content' hmem'
        rw [List.mem_singleton.1 hmem']
        exact hsource hr tags htags₀
    obtain ⟨ht₁, hcontents⟩ := htext
    obtain ⟨ht', -, hchildren⟩ := Engine.Secures.runAll (composes_steps .commands)
      (Q := fun child c => c.Resolved child ∧ ∃ v, c₀.value? child = some v)
      (fun _ _ _ hsteps hq => ⟨hsteps.resolved hq.1, hq.2⟩) (fun child _ => hh child) _ _ _ ht₁
      hparts
    refine ⟨ht', fun hr => hvalue ?_⟩
    obtain ⟨hr₁, hr₂⟩ := Engine.firstError_eq_ok.1 hr
    exact kindValue_of_parts hkind (hcontents hr₁) fun y hy => (hchildren () hr₂ y hy).2
  | target hk htarget' hgives =>
    exact htarget ht hk (ht.faithful.targets hd hk htarget') hgives
  | @found reference target _ _ hk hnone hl hgives =>
    rw [lookup?_of_unresolved_eq hwritten] at hl
    obtain ⟨references, hd₁⟩ := definition?_addReference hd target id
    have hfaithful : c₀.Faithful ((c.addReference target id).setTarget id target) :=
      (ht.addReference target id).faithful.setTarget hd₁ hk hl
    have hsound : ((c.addReference target id).setTarget id target).IsSound :=
      (steps_setTarget hd hk hnone).isSound ht.sound
    exact htarget ⟨hsound, hfaithful⟩ hk hl hgives
  | missing => exact ⟨ht, by simp⟩

end

/-- **From a context that tracks another one the command pass leads to such a context, and if it
    ends with a value, the definition has one.** -/
theorem secures_handleCommands_value (hfont : c₀.IsFontless)
    (hu : c₀.Uses CommandKind.Substitutes) (n : Nat) (id : DefinitionId) :
    (Engine.handleCommands n id).Secures c₀.Tracks (Steps .commands) fun _ c =>
      c.Resolved id ∧ ∃ v, c₀.value? id = some v := by
  induction n generalizing id with
  | zero =>
    intro c r c' _ h
    exact (Engine.gives_endless.1 h).elim
  | succ n ih =>
    intro c r c' ht h
    rw [Engine.handleCommands, Engine.gives_definition_bind] at h
    obtain ⟨d, -, h⟩ := h
    exact Engine.Secures.nested (composes_steps .commands)
      (fun c depth => Step.steps (.of_core_eq (c.core_atDepth depth)))
      (fun depth ht => ht.of_core_eq (core_atDepth _ depth))
      (fun hsteps hq => ⟨hsteps.resolved hq.1, hq.2⟩)
      (secures_commandPass_value hfont ih (secures_handleCommands n) hu id) _ _ _ ht h

/-! ## The text of a handled definition -/

/-- The event is a call for commands. -/
def Event.HandlesCommands : Event → Prop
  | call (.commands _) _ => True
  | _ => False

theorem Event.HandlesCommands.isCall {e : Event} (h : e.HandlesCommands) : e.IsCall := by
  cases e with
  | edit => exact h
  | call => trivial

end Rubric
