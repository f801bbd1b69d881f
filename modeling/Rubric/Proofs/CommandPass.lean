/-
  Rubric — the command pass takes steps, and leaves definitions resolved.

  * `Inline.IsDone`: what an inline shows is executed, and what its commands
    stand for is resolved; executing fresh inlines yields such
    (`isDone_executeList`);
  * `Engine.CommandPassGives`: what the pass of one node does;
    `secures_commandPass`: it takes steps if the passes of others do;
  * **`secures_handleCommands`**: the pass of a node, however deep it nests.
-/
import Rubric.Proofs.Execution
import Rubric.Proofs.Markup
import Rubric.Proofs.Step

namespace Rubric

variable {c c' : Context}

/-! ## Resolved output -/

namespace Context

/-- What a command may stand for: a resolved definition that is no multilingual value. -/
def IsServed (c : Context) (t : DefinitionId) : Prop :=
  c.Resolved t ∧ ¬ c.IsMultilingual t

theorem Steps.isServed {pass : Pass} (h : Steps pass c c') {t : DefinitionId}
    (ht : c.IsServed t) : c'.IsServed t :=
  ⟨h.resolved ht.1, h.not_isMultilingual ht.2⟩

theorem isServed_of_boolean {t : DefinitionId} {d : Definition} {value : Bool}
    (hd : c.definition? t = some d) (hk : d.kind = .boolean value) : c.IsServed t := by
  constructor
  · refine resolved_iff.2 ⟨d, hd, ⟨?_, ?_, ?_⟩, ?_⟩ <;> rw [hk]
    · simp [DefinitionKind.contents]
    · simp [DefinitionKind.contents]
    · rintro reference ⟨⟩
    · intro y hy
      rw [DefinitionKind.mem_links, DefinitionKind.targets_eq_nil rfl] at hy
      simp [DefinitionKind.children, DefinitionKind.target?] at hy
  · rintro ⟨d', hd', runs, hr⟩
    rw [Option.some.inj (hd'.symm.trans hd), hk] at hr; cases hr

/-- From a sound context, steps of a pass lead to the other one. -/
def Follows (pass : Pass) (c c' : Context) : Prop :=
  c.IsSound → Steps pass c c'

theorem composes_follows (pass : Pass) : Engine.Composes (Follows pass) where
  refl c _ := .refl c
  trans h₁ h₂ hs := (h₁ hs).trans (h₂ ((h₁ hs).isSound hs))

theorem Follows.of_core_eq {pass : Pass} (h : c'.core = c.core) : Follows pass c c' :=
  fun _ => Step.steps (.of_core_eq h)

/-- Commands of any kind take steps of the command pass. -/
theorem permits_follows (kinds : CommandKind → Prop) : Permits kinds (Follows .commands) where
  toComposes := composes_follows .commands
  warn c warnings := .of_core_eq (c.core_warnAll warnings)
  reference c definition user := .of_core_eq (c.core_addReference definition user)
  number _ c document := .of_core_eq (c.core_modifyFootnotes document _)
  boolean _ c value _ := (Step.addBoolean c _ value).steps

end Context

open Context

/-- Everything in a list stands in its intercalation already, or is the separator. -/
theorem mem_of_mem_intersperse {α : Type} {a b : α} : ∀ {l : List α},
    a ∈ l.intersperse b → a = b ∨ a ∈ l
  | [], h => by cases h
  | [x], h => Or.inr h
  | x :: y :: l, h => by
    rw [List.intersperse_cons_cons, List.mem_cons, List.mem_cons] at h
    rcases h with rfl | rfl | h
    · exact Or.inr (by simp)
    · exact Or.inl rfl
    · rcases mem_of_mem_intersperse h with rfl | h
      · exact Or.inl rfl
      · exact Or.inr (List.mem_cons_of_mem _ h)

/-! ## Execution -/

section
variable {handle : DefinitionId → Engine Unit}
  (hh : ∀ id, (handle id).Secures IsSound (Steps .commands) fun _ c => c.Resolved id)

/-- What an executed inline shows is executed, and what its commands stand for is served. -/
structure Inline.IsDone (c : Context) (i : Inline) : Prop where
  executed : i.IsExecuted
  targets : ∀ t ∈ Inline.targets [i], c.IsServed t

theorem Inline.isDone_run (text : String) (own : Tags) : (run text own).IsDone c :=
  ⟨isExecuted_run text own, by simp [targets_run]⟩

theorem Inline.isDone_span {l : List Inline} {own : Tags} :
    (span l own).IsDone c ↔ ∀ i ∈ l, i.IsDone c := by
  constructor
  · rintro ⟨he, ht⟩ i hi
    refine ⟨isExecuted_span.1 he i hi, fun t htarget => ht t ?_⟩
    rw [targets_span]; exact mem_targets_iff.2 ⟨i, hi, htarget⟩
  · intro h
    refine ⟨isExecuted_span.2 fun i hi => (h i hi).executed, fun t ht => ?_⟩
    rw [targets_span] at ht
    obtain ⟨i, hi, ht⟩ := mem_targets_iff.1 ht
    exact (h i hi).targets t ht

theorem Inline.IsDone.steps {pass : Pass} {i : Inline} (hi : i.IsDone c) (h : Steps pass c c') :
    i.IsDone c' :=
  ⟨hi.executed, fun t ht => h.isServed (hi.targets t ht)⟩

theorem Inline.IsFresh.targets {i : Inline} (h : i.IsFresh) :
    ∀ t ∈ Inline.targets [i], c.IsServed t := by
  rw [h.targets_eq_nil]; simp

/-- An executed command is done if what it stands for is, and what is recorded in it serves. -/
theorem Inline.isDone_command {name : String} {kind : CommandKind} {parameters : List Inline}
    {own : Tags} {evaluation : Evaluation} (ho : evaluation.output?.isSome)
    (hshown : ∀ i ∈ evaluation.shownOf parameters, i.IsExecuted)
    (htarget : ∀ t, evaluation.output? = some (.definition t) → c.IsServed t)
    (hparameters : ∀ i ∈ parameters, ∀ t ∈ targets [i], c.IsServed t)
    (hinlines : ∀ i ∈ evaluation.inlines, ∀ t ∈ targets [i], c.IsServed t) :
    (command name kind parameters own evaluation).IsDone c := by
  refine ⟨isExecuted_command.2 ⟨ho, hshown⟩, fun t ht => ?_⟩
  rw [targets_command, List.mem_append, List.mem_append] at ht
  rcases ht with ht | ht | ht
  · refine htarget t ?_
    simp only [target?, Option.mem_toList] at ht
    split at ht
    · rename_i id hid
      cases ht
      exact hid
    · cases ht
  · obtain ⟨i, hi, ht⟩ := mem_targets_iff.1 ht
    exact hparameters i hi t ht
  · obtain ⟨i, hi, ht⟩ := mem_targets_iff.1 ht
    exact hinlines i hi t ht

/-- A command that shows one of its parameters is done if that is executed. -/
theorem Inline.isDone_parameter {name : String} {kind : CommandKind} {parameters : List Inline}
    {own : Tags} {n : Nat} {chosen : Inline} (hn : parameters[n]? = some chosen)
    (hchosen : chosen.IsExecuted)
    (hparameters : ∀ i ∈ parameters, ∀ t ∈ targets [i], c.IsServed t) :
    (command name kind parameters own (.evaluated (.parameter n))).IsDone c := by
  refine isDone_command rfl ?_ ?_ hparameters ?_
  · simpa [Evaluation.shownOf, Evaluation.output?, hn] using hchosen
  · rintro t ⟨⟩
  · simp [Evaluation.inlines, Output.inlines]

/-- A ternary is done if its condition and the branch it shows are; the other one may still be
    fresh. -/
theorem Inline.isDone_ternary {name : String} {condition yes no chosen : Inline} {own : Tags}
    (value : Bool) (hcondition : condition.IsDone c) (hchosen : chosen.IsDone c)
    (hyes : yes.IsFresh) (hno : no.IsFresh) :
    (command name .ternary
      [condition, if value then chosen else yes, if value then no else chosen] own
      (.evaluated (.parameter (if value then 1 else 2)))).IsDone c := by
  refine isDone_parameter (by cases value <;> rfl) hchosen.executed fun i hi => ?_
  simp only [List.mem_cons, List.not_mem_nil, or_false] at hi
  rcases hi with rfl | rfl | rfl
  · exact hcondition.targets
  · cases value
    · exact hyes.targets
    · exact hchosen.targets
  · cases value
    · exact hchosen.targets
    · exact hno.targets

/-- A command that shows an inline of its own is done if that is. -/
theorem Inline.isDone_inline {name : String} {kind : CommandKind} {parameters : List Inline}
    {own : Tags} {i : Inline} (hi : i.IsDone c)
    (hparameters : ∀ i ∈ parameters, ∀ t ∈ targets [i], c.IsServed t) :
    (command name kind parameters own (.evaluated (.inline i))).IsDone c := by
  refine isDone_command rfl ?_ ?_ hparameters ?_
  · simpa [Evaluation.shownOf, Evaluation.output?] using hi.executed
  · rintro t ⟨⟩
  · simpa [Evaluation.inlines, Output.inlines] using hi.targets

include hh

theorem follows_handle (id : DefinitionId) : (handle id).Moves (Follows .commands) :=
  fun _ _ _ h hs => (hh id _ _ _ hs h).2.1

/-- A handled definition serves if it is no multilingual value. -/
theorem isServed_of_handle {target : DefinitionId} {d : Definition} (hs : c.IsSound)
    (hd : c.definition? target = some d) (hm : ¬ d.kind.IsMultilingual)
    (h : (handle target).Gives c (.ok ()) c') : c'.IsServed target := by
  obtain ⟨-, hsteps, hr⟩ := hh target _ _ _ hs h
  refine ⟨hr () rfl, hsteps.not_isMultilingual ?_⟩
  rintro ⟨d', hd', hm'⟩
  rw [Option.some.inj (hd'.symm.trans hd)] at hm'
  exact hm hm'

omit hh in
theorem isDone_separates {call : Invocation} {separator : Inline}
    (h : Invocation.Separates handle call c separator c') : separator.IsDone c' := by
  obtain ⟨text, own, rfl⟩ := h.eq_run
  exact Inline.isDone_run text own

/-- What a command with executed parameters becomes is done. -/
theorem isDone_effects {call : Invocation} {name : String} {kind : CommandKind}
    {ps : List Inline} {own : Tags} {effect : Effect} (hs : c.IsSound)
    (hsteps : Steps .commands c c') (hps : ∀ i ∈ ps, i.IsDone c)
    (h : Invocation.Effects handle call c kind ps effect c') :
    (Inline.command name kind ps own (.of effect.output effect.footnote)).IsDone c' := by
  have hps' : ∀ i ∈ ps, i.IsDone c' := fun i hi => (hps i hi).steps hsteps
  have hsound : ∀ target user, (c.addReference target user).IsSound := fun target user =>
    Step.isSound (Step.of_core_eq (c.core_addReference target user) : Step .commands c _) hs
  -- a definition: what is recorded besides it is in the parameters
  have hdefinition : ∀ {target}, c'.IsServed target →
      (Inline.command name kind ps own (.evaluated (.definition target))).IsDone c' := by
    intro target ht
    refine Inline.isDone_command rfl ?_ ?_ (fun i hi => (hps' i hi).targets) ?_
    · simp [Evaluation.shownOf, Evaluation.output?]
    · rintro t ⟨⟩; exact ht
    · simp [Evaluation.inlines, Output.inlines]
  have hinline : ∀ {i}, i.IsDone c' →
      (Inline.command name kind ps own (.evaluated (.inline i))).IsDone c' :=
    fun hi => Inline.isDone_inline hi fun i hi => (hps' i hi).targets
  have hlines : ∀ {separator : Inline} {lines : List Inline}, separator.IsDone c' →
      (∀ i ∈ lines, i.IsDone c') →
        (Inline.span (lines.intersperse separator) .unset).IsDone c' := by
    intro separator lines hseparator hl
    refine Inline.isDone_span.2 fun i hi => ?_
    rcases mem_of_mem_intersperse hi with rfl | hi
    · exact hseparator
    · exact hl i hi
  cases h with
  | definition _ _ hd hm hhandle =>
    exact hdefinition (isServed_of_handle hh (hsound _ _) hd hm hhandle)
  | value => exact hinline (Inline.isDone_run _ _)
  | sharedBoolean _ hd hk =>
    obtain ⟨references, hd'⟩ := definition?_addReference hd _ _
    exact hdefinition (isServed_of_boolean hd' hk)
  | @newBoolean _ key value =>
    have hd : (c.addBoolean none key value).2.definition? (c.addBoolean none key value).1 =
        some { key := some key, kind := .boolean value } := by
      rw [addBoolean, definition?_addDefinition, addDefinition, if_pos rfl]
    obtain ⟨references, hd'⟩ := definition?_addReference hd _ _
    exact hdefinition (isServed_of_boolean hd' rfl)
  | lines =>
    exact hinline (hlines (hps' _ (by simp)) fun i hi => hps' i (by simp [hi]))
  | defaultLines _ _ hseparator =>
    exact hinline (hlines (isDone_separates hseparator) fun i hi => hps' i (by simp [hi]))
  | @footnote annotated body =>
    have hannotated : ∀ mark,
        (Inline.span (annotated ++ [.unicode mark none]) .unset).IsDone c' := by
      intro mark
      refine Inline.isDone_span.2 fun i hi => ?_
      rcases List.mem_append.1 hi with hi | hi
      · exact hps' i (by simp [hi])
      · rw [List.mem_singleton.1 hi]; exact Inline.isDone_run _ _
    have hbody : (Inline.span [body] call.tags).IsDone c' :=
      Inline.isDone_span.2 fun i hi => by
        rw [List.mem_singleton.1 hi]; exact hps' body (by simp)
    refine Inline.isDone_command rfl ?_ ?_ (fun i hi => (hps' i hi).targets) ?_
    · simpa [Evaluation.shownOf, Evaluation.output?, Evaluation.of] using (hannotated _).executed
    · rintro t ⟨⟩
    · intro i hi
      simp only [Evaluation.of, Evaluation.inlines, Output.inlines, List.cons_append,
        List.nil_append, List.mem_cons, List.not_mem_nil, or_false] at hi
      rcases hi with rfl | rfl
      · exact (hannotated _).targets
      · exact hbody.targets
  | text => exact hinline (Inline.isDone_run _ _)

/-- **Executing fresh inlines yields inlines that are done.** -/
theorem isDone_executeList {scope : Scope} {tags : Tags} {l l' : List Inline}
    {notes : List Footnote} (hl : ∀ i ∈ l, i.IsFresh) (hs : c.IsSound)
    (h : (Inline.executeList handle scope tags l).Gives c (.ok (l', notes)) c') :
    Steps .commands c c' ∧ ∀ i ∈ l', i.IsDone c' := by
  have hrules : Inline.ExecutionRules handle scope
      (fun _ i c i' _ c' => i.IsFresh → c.IsSound → Steps .commands c c' ∧ i'.IsDone c')
      (fun _ l c l' _ c' => (∀ i ∈ l, i.IsFresh) → c.IsSound →
        Steps .commands c c' ∧ ∀ i ∈ l', i.IsDone c') := by
    refine ⟨?run, ?span, ?executed, ?ternary, ?language, ?command, ?nil, ?cons⟩
    case run =>
      intro tags text own c _ _
      exact ⟨.refl _, Inline.isDone_run text own⟩
    case span =>
      intro tags l own c l' notes c' ih hfresh hs
      obtain ⟨hsteps, hdone⟩ := ih (Inline.isFresh_span.1 hfresh).2 hs
      exact ⟨hsteps, Inline.isDone_span.2 hdone⟩
    case executed =>
      intro tags name kind parameters own evaluation c he hfresh _
      exact absurd (Inline.isFresh_command.1 hfresh).2.1 he
    case ternary =>
      intro _ _ condition yes no _ c condition' _ c₁ value chosen _ c' ihc _ ihb hfresh hs
      obtain ⟨-, -, hfresh⟩ := Inline.isFresh_command.1 hfresh
      have hyes : yes.IsFresh := hfresh yes (by simp)
      have hno : no.IsFresh := hfresh no (by simp)
      obtain ⟨hsteps, hcondition⟩ := ihc (hfresh _ (by simp)) hs
      obtain ⟨hsteps', hchosen⟩ := ihb (by cases value <;> assumption) (hsteps.isSound hs)
      refine ⟨hsteps.trans hsteps', ?_⟩
      exact Inline.isDone_ternary value (hcondition.steps hsteps') hchosen hyes hno
    case language =>
      intro tags name tag body own c tag' notes c₁ language body' more c' iht ihb hfresh hs
      obtain ⟨-, -, hfresh⟩ := Inline.isFresh_command.1 hfresh
      obtain ⟨hsteps, htag⟩ := iht (hfresh _ (by simp)) hs
      obtain ⟨hsteps', hbody⟩ := ihb (hfresh _ (by simp)) (hsteps.isSound hs)
      have hspan : (Inline.span [body'] { language := some language }).IsDone c' :=
        Inline.isDone_span.2 fun i hi => by rw [List.mem_singleton.1 hi]; exact hbody
      refine ⟨hsteps.trans hsteps', Inline.isDone_inline hspan fun i hi => ?_⟩
      simp only [List.mem_cons, List.not_mem_nil, or_false] at hi
      rcases hi with rfl | rfl
      · exact (htag.steps hsteps').targets
      · exact hbody.targets
    case command =>
      intro tags name kind parameters own c parameters' notes c₁ effect c' _ ihp hrun hfresh hs
      obtain ⟨-, -, hfresh⟩ := Inline.isFresh_command.1 hfresh
      obtain ⟨hsteps, hps⟩ := ihp hfresh hs
      have hs₁ := hsteps.isSound hs
      have hsteps' := Invocation.run_moves (permits_follows fun _ => True) (follows_handle hh) _
        trivial parameters' _ _ _ hrun hs₁
      exact ⟨hsteps.trans hsteps',
        isDone_effects hh hs₁ hsteps' hps (Invocation.effects_of_run hrun)⟩
    case nil =>
      intro tags c _ _
      exact ⟨.refl _, by simp⟩
    case cons =>
      intro tags i l c i' notes c₁ l' more c' ihi ihl hfresh hs
      obtain ⟨hsteps, hi⟩ := ihi (hfresh _ (by simp)) hs
      obtain ⟨hsteps', hl⟩ := ihl (fun j hj => hfresh j (by simp [hj])) (hsteps.isSound hs)
      refine ⟨hsteps.trans hsteps', fun j hj => ?_⟩
      rcases List.mem_cons.1 hj with rfl | hj
      · exact hi.steps hsteps'
      · exact hl j hj
  exact hrules.inlines h hl hs

end

/-! ## How a pass may end -/

namespace Engine

variable {handle : DefinitionId → Engine Unit} {id : DefinitionId}

/-- A source is malformed, or it is read and its commands are executed; the footnotes leave their
    place if all commands succeed. -/
theorem gives_resolveSource {source : String} {r : Except Error (List Inline)}
    (h : (resolveSource handle id source).Gives c r c') :
    (∃ cause, Markup.parse c.commands source = .error cause ∧ r = .error (.ofCause cause) ∧
        c' = c) ∨
      ∃ written tags d, Markup.parse c.commands source = .ok written ∧
        c.effectiveTags? id = some tags ∧ c.definition? id = some d ∧
        ((∃ e, r = .error e ∧
            (Inline.executeList handle { owner := id, document := d.document } tags written).Gives
              c (.error e) c') ∨
          ∃ l notes c₁, r = .ok l ∧
            (Inline.executeList handle { owner := id, document := d.document } tags written).Gives
              c (.ok (l, notes)) c₁ ∧
            c' = c₁.routeFootnotes d.document notes) := by
  rw [resolveSource, gives_get_bind] at h
  rcases hp : Markup.parse c.commands source with cause | written
  · rw [hp, ofExcept, gives_bind] at h
    rcases h with ⟨_, _, h, -⟩ | ⟨e, h, rfl⟩
    · simp at h
    · obtain ⟨he, hc⟩ := gives_fail.1 h
      cases he
      exact Or.inl ⟨cause, rfl, rfl, hc⟩
  · rw [hp, ofExcept, pure_bind, gives_ofOption_bind] at h
    obtain ⟨tags, htags, h⟩ := h
    rw [gives_definition_bind] at h
    obtain ⟨d, hd, h⟩ := h
    dsimp only at h
    refine Or.inr ⟨written, tags, d, rfl, htags, hd, ?_⟩
    rcases gives_bind.1 h with ⟨⟨l, notes⟩, c₁, hl, h⟩ | ⟨e, hl, rfl⟩
    · rw [gives_modify_bind] at h
      obtain ⟨rfl, rfl⟩ := gives_pure.1 h
      exact Or.inr ⟨l, notes, c₁, rfl, hl, rfl⟩
    · exact Or.inl ⟨e, rfl, hl⟩

theorem resolveContent_of_isHandled (handle : DefinitionId → Engine Unit) (id : DefinitionId)
    {content : Content} (h : content.IsHandled) : resolveContent handle id content = pure () := by
  unfold resolveContent
  split
  · rename_i hunparsed
    exact absurd hunparsed h
  · rfl
  · rfl

/-- A text that is handled stays; of another one the source is read. -/
theorem gives_resolveContent {content : Content} {r : Except Error Unit}
    (h : (resolveContent handle id content).Gives c r c') :
    (content.IsHandled ∧ r = .ok () ∧ c' = c) ∨
      content.stage = .unparsed ∧ ∃ r₁ c₁, (resolveSource handle id content.source).Gives c r₁ c₁ ∧
        ((∃ e, r₁ = .error e ∧ r = .error e ∧ c' = c₁) ∨ ∃ l, r₁ = .ok l ∧ r = .ok () ∧
          c' = c₁.modifyContent id fun content => content.resolveCommands l) := by
  unfold resolveContent at h
  split at h
  · rename_i hstage
    refine Or.inr ⟨hstage, ?_⟩
    rcases gives_bind.1 h with ⟨l, c₁, hsource, h⟩ | ⟨e, hsource, rfl⟩
    · obtain ⟨rfl, rfl⟩ := gives_modify.1 h
      exact ⟨.ok l, c₁, hsource, Or.inr ⟨l, rfl, rfl, rfl⟩⟩
    · exact ⟨.error e, c', hsource, Or.inl ⟨e, rfl, rfl, rfl⟩⟩
  all_goals
    rename_i hstage
    obtain ⟨rfl, rfl⟩ := gives_pure.1 h
    exact Or.inl ⟨by simp [Content.IsHandled, hstage], rfl, rfl⟩

/-- What the source of an unread text becomes takes its place. -/
theorem gives_resolveContent_of_source {content : Content} {l : List Inline}
    (hunparsed : content.stage = .unparsed)
    (h : (resolveSource handle id content.source).Gives c (.ok l) c') :
    (resolveContent handle id content).Gives c (.ok ())
      (c'.modifyContent id fun content => content.resolveCommands l) := by
  rw [resolveContent, hunparsed]
  exact gives_bind_ok.2 ⟨l, c', h, gives_modify.2 ⟨rfl, rfl⟩⟩

/-- What the command pass of a node does, and the context it leaves. -/
inductive CommandPassGives (handle : DefinitionId → Engine Unit) (id : DefinitionId) (c : Context)
    (d : Definition) : Except Error Unit → Context → Prop
  /-- The text of the node, if it has one, then its parts. -/
  | parts {r₁ r₂ : Except Error Unit} {c₁ c' : Context} :
      (∀ reference, d.kind ≠ .partReference reference) →
      (d.kind.contents = [] ∧ r₁ = .ok () ∧ c₁ = c ∨
        ∃ content ∈ d.kind.contents, (resolveContent handle id content).Gives c r₁ c₁) →
      (runAll (d.kind.children.map handle)).Gives c₁ r₂ c' →
      CommandPassGives handle id c d (firstError r₁ r₂) c'
  /-- The target of a part reference. -/
  | target {reference : PartReference} {target : DefinitionId} {r : Except Error Unit}
      {c' : Context} :
      d.kind = .partReference reference → reference.target = some target →
      (handle target).Gives c r c' → CommandPassGives handle id c d r c'
  /-- The target of a part reference, which is found. -/
  | found {reference : PartReference} {target : DefinitionId} {r : Except Error Unit}
      {c' : Context} :
      d.kind = .partReference reference → reference.target = none →
      c.lookup? reference.targetKey d.document = some target →
      (handle target).Gives ((c.addReference target id).setTarget id target) r c' →
      CommandPassGives handle id c d r c'
  /-- The target of a part reference is not found. -/
  | missing {reference : PartReference} :
      d.kind = .partReference reference → reference.target = none →
      c.lookup? reference.targetKey d.document = none → CommandPassGives handle id c d
        (.error (.ofCause (.definitionNotFound reference.targetKey none))) c

theorem gives_commandPass {r : Except Error Unit} (h : (commandPass handle id).Gives c r c') :
    ∃ d, c.definition? id = some d ∧ CommandPassGives handle id c d r c' := by
  rw [commandPass, gives_definition_bind] at h
  obtain ⟨d, hd, h⟩ := h
  refine ⟨d, hd, ?_⟩
  split at h
  case h_1 content hk | h_2 content hk =>
    rw [← firstError_ok r]
    refine .parts (by simp [hk]) (Or.inr ⟨content, ?_, h⟩) ?_
    · simp [hk, DefinitionKind.contents]
    · rw [hk]
      exact gives_pure.2 ⟨rfl, rfl⟩
  case h_3 body hk =>
    obtain ⟨r₁, c₁, r₂, htitle, hparts, rfl⟩ := gives_runAll_toList_append h
    refine .parts (by simp [hk]) ?_ (by rw [hk]; exact hparts)
    rw [hk]
    exact htitle
  case h_4 reference hk =>
    split at h
    · rename_i target ht
      exact .target hk ht h
    · rename_i hnone
      rw [gives_get_bind, gives_definition_bind] at h
      obtain ⟨d', hd', h⟩ := h
      rw [Option.some.inj (hd'.symm.trans hd)] at h
      unfold Context.lookup at h
      rcases hl : c.lookup? reference.targetKey d.document with _ | target
      · rw [hl, ofExcept, gives_bind] at h
        rcases h with ⟨_, _, h, -⟩ | ⟨e, h, rfl⟩
        · simp at h
        · obtain ⟨he, rfl⟩ := gives_fail.1 h
          cases he
          exact .missing hk hnone hl
      · rw [hl, ofExcept, pure_bind, gives_modify_bind] at h
        exact .found hk hnone hl h
  case h_5 _ hk | h_6 _ hk | h_7 _ hk =>
    rw [← firstError_ok r]
    refine .parts (by simp [hk]) (Or.inl ⟨by rw [hk]; rfl, (gives_pure.1 h).1, rfl⟩) ?_
    rw [hk]
    exact gives_pure.2 ⟨rfl, (gives_pure.1 h).2⟩

end Engine

/-! ## The command pass -/

/-- All commands in the texts of the definition are handled. -/
def Context.IsHandledAt (c : Context) (id : DefinitionId) : Prop :=
  ∃ d, c.definition? id = some d ∧ ∀ content ∈ d.kind.contents, content.IsHandled

theorem Context.Steps.isHandledAt {pass : Pass} {id : DefinitionId} (h : Steps pass c c')
    (hc : c.IsHandledAt id) : c'.IsHandledAt id := by
  obtain ⟨d, hd, hh⟩ := hc
  exact h.definition (P := fun kind => ∀ content ∈ kind.contents, content.IsHandled)
    (fun hk => hk.handled) hd hh

/-- A definition of a sound context is resolved once its commands, its parts and its target
    are. -/
theorem Context.IsSound.resolved {id : DefinitionId} {d : Definition} (hs : c.IsSound)
    (hd : c.definition? id = some d) (hh : ∀ content ∈ d.kind.contents, content.IsHandled)
    (ha : d.kind.IsAimed) (hchildren : ∀ y ∈ d.kind.children, c.Resolved y)
    (htarget : ∀ y, d.kind.target? = some y → c.Resolved y) : c.Resolved id := by
  refine resolved_iff.2 ⟨d, hd, ⟨hh, hs.executed hd, ha⟩, fun y hy => ?_⟩
  rcases DefinitionKind.mem_links.1 hy with ht | hchild | ht
  · exact (hs.targets hd y ht).1
  · exact hchildren y hchild
  · exact htarget y ht

/-- What is no part reference is resolved once its commands and its parts are. -/
theorem Context.IsSound.resolved_of_steps {pass : Pass} {id : DefinitionId} {d : Definition}
    (hs : c'.IsSound) (hsteps : Steps pass c c') (hd : c.definition? id = some d)
    (hh : c'.IsHandledAt id) (hchildren : ∀ y ∈ d.kind.children, c'.Resolved y)
    (hr : ∀ reference, d.kind ≠ .partReference reference) : c'.Resolved id := by
  obtain ⟨d', hd', hc, hr'⟩ := hsteps.definition
    (P := fun kind => kind.children = d.kind.children ∧
      ∀ reference, kind ≠ .partReference reference)
    (fun hk h => ⟨hk.children_eq.trans h.1, hk.not_reference h.2⟩) hd ⟨rfl, hr⟩
  obtain ⟨d'', hd'', hhandled⟩ := hh
  rw [Option.some.inj (hd''.symm.trans hd')] at hhandled
  obtain ⟨haimed, hnone⟩ := DefinitionKind.isAimed_of_not_reference hr'
  exact hs.resolved hd' hhandled haimed (hc ▸ hchildren) (by simp [hnone])

section
variable {handle : DefinitionId → Engine Unit}
  (hh : ∀ id, (handle id).Secures IsSound (Steps .commands) fun _ c => c.Resolved id)
include hh

/-- Reading a source and executing its commands takes steps, and yields inlines that are done. -/
theorem steps_resolveSource {owner : DefinitionId} {source : String}
    {r : Except Error (List Inline)} (hs : c.IsSound)
    (h : (Engine.resolveSource handle owner source).Gives c r c') :
    Steps .commands c c' ∧ ∀ l, r = .ok l → ∀ i ∈ l, i.IsDone c' := by
  rcases Engine.gives_resolveSource h with
    ⟨_, -, rfl, rfl⟩ | ⟨written, tags, d, hp, -, -, ⟨e, rfl, hl⟩ | ⟨l, notes, c₁, rfl, hl, rfl⟩⟩
  · exact ⟨.refl _, by simp⟩
  · have hmoves := Inline.executeList_moves (permits_follows fun _ => True) (follows_handle hh)
      written (fun i _ => Inline.uses_all) tags _ _ _ hl hs
    exact ⟨hmoves, by rintro l ⟨⟩⟩
  · have hroute : Steps .commands c₁ (c₁.routeFootnotes d.document notes) :=
      Step.steps (.of_core_eq (c₁.core_modifyFootnotes d.document _))
    obtain ⟨hsteps, hdone⟩ := isDone_executeList hh (Markup.isFresh_of_mem_parse hp) hs hl
    refine ⟨hsteps.trans hroute, ?_⟩
    rintro l ⟨⟩ i hi
    exact (hdone i hi).steps hroute

omit hh in
/-- What has come of an unread text takes its place. -/
theorem step_write {id : DefinitionId} {d : Definition} {content : Content} {l : List Inline}
    (hd : c.definition? id = some d) (hcontent : content ∈ d.kind.contents)
    (hunparsed : content.stage = .unparsed) (hsteps : Steps .commands c c')
    (hl : ∀ i ∈ l, i.IsDone c') :
    Step .commands c' (c'.modifyContent id fun content => content.resolveCommands l) := by
  -- nothing was converted when the pass began, and a command pass converts nothing
  have hstart : ∀ content ∈ d.kind.contents, ¬ content.IsConverted := by
    rw [DefinitionKind.contents_eq_of_mem hcontent]
    intro content' hmem
    rw [List.mem_singleton.1 hmem]
    rintro ⟨inlines, hi⟩
    rw [hunparsed] at hi; cases hi
  obtain ⟨d₁, hd₁, hunconverted⟩ := hsteps.definition
    (P := fun kind => ∀ content ∈ kind.contents, ¬ content.IsConverted)
    (fun hk => hk.unconverted rfl) hd hstart
  have hexecuted : ∀ i ∈ l, i.IsExecuted := fun i hi => (hl i hi).executed
  have htargets : ∀ t ∈ Inline.targets l, c'.IsServed t := by
    intro t ht
    obtain ⟨i, hi, ht⟩ := Inline.mem_targets_iff.1 ht
    exact (hl i hi).targets t ht
  rw [modifyContent_eq]
  exact Step.modifyKind hd₁ (.commands rfl hunconverted hexecuted htargets)

theorem steps_resolveContent {id : DefinitionId} {d : Definition} {content : Content}
    {r : Except Error Unit} (hs : c.IsSound) (hd : c.definition? id = some d)
    (hcontent : content ∈ d.kind.contents)
    (h : (Engine.resolveContent handle id content).Gives c r c') :
    Steps .commands c c' ∧ (r = .ok () → c'.IsHandledAt id) := by
  have hcontents := DefinitionKind.contents_eq_of_mem hcontent
  rcases Engine.gives_resolveContent h with
    ⟨hhandled, rfl, rfl⟩ | ⟨hstage, r₁, c₁, hsource, ⟨e, rfl, rfl, rfl⟩ | ⟨l, rfl, rfl, rfl⟩⟩
  · refine ⟨.refl _, fun _ => ⟨d, hd, ?_⟩⟩
    rw [hcontents]
    intro content' hmem
    rw [List.mem_singleton.1 hmem]; exact hhandled
  · exact ⟨(steps_resolveSource hh hs hsource).1, by simp⟩
  · obtain ⟨hsteps, hdone⟩ := steps_resolveSource hh hs hsource
    have hwrite := step_write hd hcontent hstage hsteps (hdone l rfl)
    obtain ⟨d₁, hd₁, -⟩ := hsteps.definition (P := fun _ => True) (fun _ _ => trivial) hd trivial
    refine ⟨hsteps.trans hwrite.steps, fun _ => ⟨_, definition?_modifyContent hd₁ _, ?_⟩⟩
    intro content' hmem
    obtain ⟨content'', -, rfl⟩ := DefinitionKind.mem_contents_mapContents.1 hmem
    exact content''.isHandled_resolveCommands l

omit hh in
/-- Setting the target of a part reference takes steps. -/
theorem steps_setTarget {id target : DefinitionId} {d : Definition} {reference : PartReference}
    (hd : c.definition? id = some d) (hk : d.kind = .partReference reference)
    (hnone : reference.target = none) :
    Steps .commands c ((c.addReference target id).setTarget id target) := by
  obtain ⟨references, hd₁⟩ := definition?_addReference hd target id
  have huse : Step .commands c (c.addReference target id) :=
    .of_core_eq (c.core_addReference target id)
  have hset : Step .commands (c.addReference target id)
      ((c.addReference target id).setTarget id target) := by
    rw [setTarget_eq]
    refine Step.modifyKind hd₁ ?_
    dsimp only
    rw [hk]
    exact .target rfl hnone
  exact huse.steps.trans hset.steps

/-- **The command pass of a node takes steps, and leaves the node resolved.** -/
theorem secures_commandPass (id : DefinitionId) :
    (Engine.commandPass handle id).Secures IsSound (Steps .commands) fun _ c => c.Resolved id := by
  intro c r c' hs h
  suffices hgoal : Steps .commands c c' ∧ (r = .ok () → c'.Resolved id) from
    ⟨hgoal.1.isSound hs, hgoal.1, fun _ hr => hgoal.2 hr⟩
  obtain ⟨d, hd, hpasses⟩ := Engine.gives_commandPass h
  -- a part reference whose target is set leads to what handling the target leads to
  have htarget : ∀ {c₁ r target}, Steps .commands c c₁ →
      (∃ d₁, c₁.definition? id = some d₁ ∧ ∃ reference, d₁.kind = .partReference reference ∧
        reference.target = some target) → (handle target).Gives c₁ r c' →
      Steps .commands c c' ∧ (r = .ok () → c'.Resolved id) := by
    rintro c₁ r target hsteps ⟨d₁, hd₁, hr₁⟩ h
    obtain ⟨-, hsteps', hr⟩ := hh target _ _ _ (hsteps.isSound hs) h
    have hall : Steps .commands c c' := hsteps.trans hsteps'
    refine ⟨hall, fun hok => ?_⟩
    obtain ⟨d', hd', reference', hk', ht'⟩ := hsteps'.definition
      (P := fun kind => ∃ reference, kind = .partReference reference ∧
        reference.target = some target) (fun hk => hk.reference) hd₁ hr₁
    refine (hall.isSound hs).resolved hd' ?_ ?_ ?_ ?_ <;> rw [hk']
    · simp [DefinitionKind.contents]
    · rintro _ ⟨⟩; rw [ht']; rfl
    · simp [DefinitionKind.children]
    · intro y hy
      rw [DefinitionKind.target?, ht'] at hy; cases hy
      exact hr () hok
  cases hpasses with
  | @parts r₁ r₂ c₁ _ hkind htext hparts =>
    have htext : Steps .commands c c₁ ∧ (r₁ = .ok () → c₁.IsHandledAt id) := by
      rcases htext with ⟨hnil, rfl, rfl⟩ | ⟨content, hmem, hcontent⟩
      · exact ⟨.refl _, fun _ => ⟨d, hd, by rw [hnil]; simp⟩⟩
      · exact steps_resolveContent hh hs hd hmem hcontent
    obtain ⟨hsteps, hhandled⟩ := htext
    obtain ⟨-, hsteps', hchildren⟩ := Engine.Secures.runAll (composes_steps .commands)
      (Q := fun child c => c.Resolved child) (fun _ _ _ hsteps hr => hsteps.resolved hr)
      (fun child _ => hh child) _ _ _ (hsteps.isSound hs) hparts
    have hall := hsteps.trans hsteps'
    refine ⟨hall, fun hr => ?_⟩
    obtain ⟨hr₁, hr₂⟩ := Engine.firstError_eq_ok.1 hr
    have hhandled : c'.IsHandledAt id := hsteps'.isHandledAt (hhandled hr₁)
    exact (hall.isSound hs).resolved_of_steps hall hd hhandled (hchildren () hr₂) hkind
  | target hk ht hgives => exact htarget (.refl _) ⟨d, hd, _, hk, ht⟩ hgives
  | @found reference target _ _ hk hnone _ hgives =>
    obtain ⟨references, hd₁⟩ := definition?_setTarget hd hk target
    exact htarget (steps_setTarget hd hk hnone) ⟨_, hd₁, _, rfl, rfl⟩ hgives
  | missing => exact ⟨.refl _, by simp⟩

end

/-- **From a sound context the command pass takes steps, and if it ends with a value, the
    definition is resolved.** -/
theorem secures_handleCommands (n : Nat) (id : DefinitionId) :
    (Engine.handleCommands n id).Secures IsSound (Steps .commands) fun _ c => c.Resolved id := by
  induction n generalizing id with
  | zero =>
    intro c r c' _ h
    exact (Engine.gives_endless.1 h).elim
  | succ n ih =>
    intro c r c' hs h
    rw [Engine.handleCommands, Engine.gives_definition_bind] at h
    obtain ⟨d, -, h⟩ := h
    exact Engine.Secures.nested (composes_steps .commands)
      (fun c depth => Step.steps (.of_core_eq (c.core_atDepth depth)))
      (fun depth hs => (Step.of_core_eq (core_atDepth _ depth) : Step .commands _ _).isSound hs)
      (fun hsteps => hsteps.resolved)
      (secures_commandPass ih id) _ _ _ hs h

end Rubric
