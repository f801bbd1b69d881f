/-
  Rubric — what executed commands hold.

  What a command holds once it is executed was in its parameters already, or it
  is a run, a span or a command that never runs.  A property of every executed
  command in a text is therefore shown for each command where it is executed,
  from there on kept, and not seen again.

  * `mem_nested_of_effects`: what is in the output and the footnote of a command;
  * `Inline.CommandLaw`: a property of commands in contexts that each execution
    brings about and that is kept from then on;
  * **`Inline.CommandLaw.rules`**: it holds of all inlines in an executed text;
    `Inline.CommandLaw.textLaw`: and of all inlines in the texts of a context.
-/
import Rubric.Proofs.CommandPass
import Rubric.Proofs.Texts

namespace Rubric

open Context

variable {c c' : Context} {handle : DefinitionId → Engine Unit} {scope : Scope}

/-! ## Outputs and footnotes -/

/-- The separator where a command gives none is not executed. -/
theorem Invocation.Separates.isIdle {call : Invocation} {separator : Inline}
    (h : Separates handle call c separator c') : separator.IsIdle := by
  obtain ⟨text, own, rfl⟩ := h.eq_run
  intro j hj
  simp only [Inline.nested, List.mem_singleton] at hj
  rw [hj, Inline.evaluation]

/-- What is in the output and the footnote of a command was in its parameters, or it is not
    executed. -/
theorem mem_nested_of_effects {call : Invocation} {kind : CommandKind} {ps : List Inline}
    {effect : Effect} {j : Inline} (h : Invocation.Effects handle call c kind ps effect c')
    (hmem : j ∈ Inline.nestedList (Evaluation.of effect.output effect.footnote).inlines) :
    j ∈ Inline.nestedList ps ∨ j.evaluation = .pending := by
  have hrun : ∀ {text own}, j ∈ (Inline.run text own).nested → j.evaluation = .pending := by
    intro text own hj
    simp only [Inline.nested, List.mem_singleton] at hj
    rw [hj, Inline.evaluation]
  have hspan : ∀ {l own}, j ∈ (Inline.span l own).nested →
      j.evaluation = .pending ∨ ∃ i ∈ l, j ∈ i.nested := by
    intro l own hj
    rcases Inline.mem_nested_span.1 hj with rfl | hj
    · exact Or.inl rfl
    · exact Or.inr (Inline.mem_nestedList.1 hj)
  obtain ⟨i, hi, hj⟩ := Inline.mem_nestedList.1 hmem
  clear hmem
  cases h with
  | definition | sharedBoolean | newBoolean => cases hi
  | value | text =>
    rw [List.mem_singleton.1 hi] at hj
    exact Or.inr (hrun hj)
  | lines =>
    rw [List.mem_singleton.1 hi] at hj
    rcases hspan hj with hj | ⟨k, hk, hjk⟩
    · exact Or.inr hj
    · refine Or.inl (Inline.mem_nestedList.2 ⟨k, ?_, hjk⟩)
      exact List.mem_cons.2 (mem_of_mem_intersperse hk)
  | defaultLines _ _ hseparator =>
    rw [List.mem_singleton.1 hi] at hj
    rcases hspan hj with hj | ⟨k, hk, hjk⟩
    · exact Or.inr hj
    · rcases mem_of_mem_intersperse hk with rfl | hk
      · exact Or.inr (hseparator.isIdle j hjk)
      · exact Or.inl (Inline.mem_nestedList.2 ⟨k, List.mem_cons_of_mem _ hk, hjk⟩)
  | @footnote annotated body =>
    simp only [Evaluation.of, Evaluation.inlines, Output.inlines, List.cons_append,
      List.nil_append, List.mem_cons, List.not_mem_nil, or_false] at hi
    rcases hi with rfl | rfl <;> rcases hspan hj with hj | ⟨k, hk, hjk⟩
    · exact Or.inr hj
    · rcases List.mem_append.1 hk with hk | hk
      · exact Or.inl (Inline.mem_nestedList.2 ⟨k, List.mem_append_left _ hk, hjk⟩)
      · rw [List.mem_singleton.1 hk] at hjk
        exact Or.inr (hrun hjk)
    · exact Or.inr hj
    · exact Or.inl (Inline.mem_nestedList.2 ⟨k, List.mem_append_right _ hk, hjk⟩)

theorem Evaluation.output?_of (output : Output) (footnote : Option Footnote) :
    (Evaluation.of output footnote).output? = some output := by
  cases footnote <;> rfl

/-- What a command stands for is what its kind has made of it. -/
theorem output_of_target? {name : String} {kind : CommandKind} {ps : List Inline} {own : Tags}
    {effect : Effect} {t : DefinitionId}
    (h : (Inline.command name kind ps own (.of effect.output effect.footnote)).target? = some t) :
    effect.output = .definition t := by
  rw [Inline.target?, Evaluation.output?_of] at h
  split at h
  · rename_i hid
    rw [Option.some.inj hid, Option.some.inj h]
  · cases h

/-! ## Properties of executed commands -/

namespace Inline

/-- A property of inlines in contexts: every inline that is not executed has it, a command of the
    given kinds has it in the context it is executed to, and it is kept along `R`.  Executions start
    from contexts with `I`. -/
structure CommandLaw (handle : DefinitionId → Engine Unit) (scope : Scope)
    (kinds : CommandKind → Prop) (I : Context → Prop) (R : Context → Context → Prop)
    (Q : Context → Inline → Prop) : Prop where
  pending : ∀ {c j}, j.evaluation = .pending → Q c j
  mono : ∀ {c c' j}, R c c' → Q c j → Q c' j
  /-- The branch that is not selected stays as it was. -/
  ternary : ∀ {c name condition yes no own} (value : Bool), (if value then no else yes).IsFresh →
    Q c (command name .ternary [condition, yes, no] own
      (.evaluated (.parameter (if value then 1 else 2))))
  language : ∀ {c name tag body own language},
    Q c (command name .language [tag, body] own
      (.evaluated (.inline (span [body] { language := some language }))))
  command : ∀ {c c' name kind ps own tags effect}, kinds kind → I c → R c c' →
    Invocation.Effects handle { name, scope, tags } c kind ps effect c' →
    Q c' (command name kind ps own (.of effect.output effect.footnote))

namespace CommandLaw

variable {kinds : CommandKind → Prop} {I : Context → Prop} {R : Context → Context → Prop}
  {Q : Context → Inline → Prop} (law : CommandLaw handle scope kinds I R Q)
include law

omit law in
/-- A property of what commands stand for. -/
theorem of_targets {T : Context → DefinitionId → Prop}
    (mono : ∀ {c c' t}, R c c' → T c t → T c' t)
    (command : ∀ {c c' name kind ps tags effect t}, kinds kind → I c → R c c' →
      Invocation.Effects handle { name, scope, tags } c kind ps effect c' →
      effect.output = .definition t → T c' t) :
    CommandLaw handle scope kinds I R fun c j => ∀ t, j.target? = some t → T c t where
  pending hj t ht := by
    rw [target?_of_pending hj] at ht
    cases ht
  mono hR h t ht := mono hR (h t ht)
  ternary _ _ _ ht := by cases ht
  language _ ht := by cases ht
  command hkind hc hR heffects t ht := command hkind hc hR heffects (output_of_target? ht)

theorem isIdle {i : Inline} (h : i.IsIdle) : ∀ j ∈ i.nested, Q c j :=
  fun j hj => law.pending (h j hj)

/-- **What each execution brings about holds of all inlines in an executed text.** -/
theorem rules (hR : Permits kinds fun c c' => I c → I c' ∧ R c c')
    (hh : ∀ id, (handle id).Moves fun c c' => I c → I c' ∧ R c c') :
    ExecutionRules handle scope
      (fun _ i c i' _ c' => i.IsFresh → i.Uses kinds → I c →
        (I c' ∧ R c c') ∧ ∀ j ∈ i'.nested, Q c' j)
      (fun _ l c l' _ c' => (∀ i ∈ l, i.IsFresh) → (∀ i ∈ l, i.Uses kinds) → I c →
        (I c' ∧ R c c') ∧ ∀ j ∈ nestedList l', Q c' j) := by
  have trans : ∀ {c c₁ c₂}, I c → (I c₁ ∧ R c c₁) → (I c₂ ∧ R c₁ c₂) → I c₂ ∧ R c c₂ :=
    fun hc h h' => hR.trans (fun _ => h) (fun _ => h') hc
  refine ⟨?run, ?span, ?executed, ?ternary, ?language, ?command, ?nil, ?cons⟩
  case run =>
    intro tags text own c hi _ hc
    exact ⟨hR.refl c hc, law.isIdle hi.isIdle⟩
  case span =>
    intro tags l own c l' notes c' ih hi hu hc
    obtain ⟨hc', hl'⟩ := ih (isFresh_span.1 hi).2 hu.of_span hc
    refine ⟨hc', fun j hj => ?_⟩
    rcases mem_nested_span.1 hj with rfl | hj
    · exact law.pending rfl
    · exact hl' j hj
  case executed =>
    intro tags name kind parameters own evaluation c he hi _ _
    exact absurd (isFresh_command.1 hi).2.1 he
  case ternary =>
    intro tags name condition yes no own c condition' _ c₁ value chosen _ c' ihc _ ihb hi hu hc
    obtain ⟨-, -, hps⟩ := isFresh_command.1 hi
    obtain ⟨-, hu⟩ := hu.of_command
    obtain ⟨hc₁, hcondition⟩ := ihc (hps _ (by simp)) (hu _ (by simp)) hc
    obtain ⟨hc', hchosen⟩ := ihb (by cases value <;> exact hps _ (by simp))
      (by cases value <;> exact hu _ (by simp)) hc₁.1
    have hother : (if value then no else yes).IsFresh := by cases value <;> exact hps _ (by simp)
    refine ⟨trans hc hc₁ hc', fun j hj => ?_⟩
    rcases mem_nested_command.1 hj with rfl | hj | hj
    · refine law.ternary value ?_
      cases value <;> exact hother
    · obtain ⟨k, hk, hjk⟩ := mem_nestedList.1 hj
      simp only [List.mem_cons, List.not_mem_nil, or_false] at hk
      have hmem : k = condition' ∨ k = chosen ∨ k = if value then no else yes := by
        cases value <;> rcases hk with rfl | rfl | rfl <;> simp
      rcases hmem with rfl | rfl | rfl
      · exact law.mono hc'.2 (hcondition j hjk)
      · exact hchosen j hjk
      · exact law.isIdle hother.isIdle j hjk
    · cases hj
  case language =>
    intro tags name tag body own c tag' notes c₁ language body' more c' iht ihb hi hu hc
    obtain ⟨-, -, hps⟩ := isFresh_command.1 hi
    obtain ⟨-, hu⟩ := hu.of_command
    obtain ⟨hc₁, htag⟩ := iht (hps _ (by simp)) (hu _ (by simp)) hc
    obtain ⟨hc', hbody⟩ := ihb (hps _ (by simp)) (hu _ (by simp)) hc₁.1
    refine ⟨trans hc hc₁ hc', fun j hj => ?_⟩
    rcases mem_nested_command.1 hj with rfl | hj | hj
    · exact law.language
    · obtain ⟨k, hk, hjk⟩ := mem_nestedList.1 hj
      simp only [List.mem_cons, List.not_mem_nil, or_false] at hk
      rcases hk with rfl | rfl
      · exact law.mono hc'.2 (htag j hjk)
      · exact hbody j hjk
    · obtain ⟨k, hk, hj⟩ := mem_nestedList.1 hj
      rw [List.mem_singleton.1 hk] at hj
      rcases mem_nested_span.1 hj with rfl | hj
      · exact law.pending rfl
      · obtain ⟨k, hk, hj⟩ := mem_nestedList.1 hj
        rw [List.mem_singleton.1 hk] at hj
        exact hbody j hj
  case command =>
    intro tags name kind ps own c ps' notes c₁ effect c' _ ihp hrun hi hu hc
    obtain ⟨-, -, hps⟩ := isFresh_command.1 hi
    obtain ⟨hkind, hu⟩ := hu.of_command
    obtain ⟨hc₁, hps'⟩ := ihp hps hu hc
    have hc' := Invocation.run_moves hR hh _ hkind ps' _ _ _ hrun hc₁.1
    have heffects := Invocation.effects_of_run hrun
    refine ⟨trans hc hc₁ hc', fun j hj => ?_⟩
    rcases mem_nested_command.1 hj with rfl | hj | hj
    · exact law.command hkind hc₁.1 hc'.2 heffects
    · exact law.mono hc'.2 (hps' j hj)
    · rcases mem_nested_of_effects heffects hj with hj | hj
      · exact law.mono hc'.2 (hps' j hj)
      · exact law.pending hj
  case nil =>
    intro tags c _ _ hc
    exact ⟨hR.refl c hc, by rintro _ ⟨⟩⟩
  case cons =>
    intro tags i l c i' notes c₁ l' more c' ihi ihl hi hu hc
    obtain ⟨hc₁, hi'⟩ := ihi (hi _ (by simp)) (hu _ (by simp)) hc
    obtain ⟨hc', hl'⟩ := ihl (fun j hj => hi j (by simp [hj])) (fun j hj => hu j (by simp [hj]))
      hc₁.1
    refine ⟨trans hc hc₁ hc', fun j hj => ?_⟩
    rw [nestedList, List.mem_append] at hj
    rcases hj with hj | hj
    · exact law.mono hc'.2 (hi' j hj)
    · exact hl' j hj

omit law in
/-- What executed inlines stand for has a property of what commands stand for. -/
theorem targets_executeList {T : Context → DefinitionId → Prop}
    (law : CommandLaw handle scope kinds I R fun c j => ∀ t, j.target? = some t → T c t)
    (hR : Permits kinds fun c c' => I c → I c' ∧ R c c')
    (hh : ∀ id, (handle id).Moves fun c c' => I c → I c' ∧ R c c') {tags : Tags}
    {l l' : List Inline} {notes : List Footnote} (hl : ∀ i ∈ l, i.IsFresh)
    (hu : ∀ i ∈ l, i.Uses kinds) (hc : I c)
    (h : (executeList handle scope tags l).Gives c (.ok (l', notes)) c') :
    (I c' ∧ R c c') ∧ ∀ t ∈ targets l', T c' t := by
  obtain ⟨hc', hl'⟩ := (law.rules hR hh).inlines h hl hu hc
  exact ⟨hc', forall_targets.2 hl'⟩

omit law in
theorem targets_execute {T : Context → DefinitionId → Prop}
    (law : CommandLaw handle scope kinds I R fun c j => ∀ t, j.target? = some t → T c t)
    (hR : Permits kinds fun c c' => I c → I c' ∧ R c c')
    (hh : ∀ id, (handle id).Moves fun c c' => I c → I c' ∧ R c c') {tags : Tags} {i i' : Inline}
    {notes : List Footnote} (hi : i.IsFresh) (hu : i.Uses kinds) (hc : I c)
    (h : (i.execute handle scope tags).Gives c (.ok (i', notes)) c') :
    (I c' ∧ R c c') ∧ ∀ t ∈ targets [i'], T c' t := by
  obtain ⟨hc', hi'⟩ := (law.rules hR hh).inline i h hi hu hc
  exact ⟨hc', forall_targets.2 (by simpa [nestedList] using hi')⟩

omit law in
/-- What each execution brings about holds of all inlines in the texts of contexts, if it is kept
    as long as nothing is taken away, and by conversion. -/
theorem textLaw {Q : DefinitionId → Context → Inline → Prop}
    (law : ∀ n x document, CommandLaw (Engine.handleCommands n) { owner := x, document }
      (fun _ => True) (fun _ => True) Recalls (Q x))
    (hconvert : ∀ {c x j} fonts tags, Q x c j → Q x c (j.remap fonts tags)) :
    TextLaw fun c x content => ∀ j ∈ nestedList content.inlines, Q x c j := by
  refine ⟨?unread, ?mono, ?handle, ?convert⟩
  case unread =>
    intro c x content hunread j hj
    rw [Content.inlines, hunread] at hj
    obtain ⟨i, hi, hj⟩ := mem_nestedList.1 hj
    rw [List.mem_singleton.1 hi] at hj
    exact (law 0 x none).isIdle (isFresh_text _).isIdle j hj
  case mono => exact fun hr h j hj => (law 0 _ none).mono hr (h j hj)
  case handle =>
    intro c c' x document tags written l notes content n hwritten hl
    have hpermits : Permits (fun _ => True) fun c c' => True → True ∧ Recalls c c' :=
      permits_recalls.mono ⟨fun c _ => ⟨trivial, composes_recalls.refl c⟩, fun h h' _ =>
        ⟨trivial, composes_recalls.trans (h trivial).2 (h' trivial).2⟩⟩ fun h _ => ⟨trivial, h⟩
    have hrules := (law n x document).rules hpermits fun id _ _ _ h _ =>
      ⟨trivial, .of_extends (extends_handleCommands n id _ _ _ h)⟩
    exact (hrules.inlines hl (Markup.isFresh_of_mem_parse hwritten)
      (fun _ _ => Inline.uses_all) trivial).2
  case convert =>
    intro c x content fonts tags h j hj
    unfold Content.resolveFonts at hj
    split at hj
    · exact h j hj
    · exact h j hj
    · rename_i l hl
      obtain ⟨i', hi', hj⟩ := mem_nestedList.1 hj
      obtain ⟨i, hi, rfl⟩ := List.mem_map.1 hi'
      obtain ⟨k, hk, tags', rfl⟩ := mem_nested_remap hj
      refine hconvert fonts tags' (h k (mem_nestedList.2 ⟨i, ?_, hk⟩))
      rw [Content.inlines, hl]
      exact hi

end CommandLaw

end Inline

end Rubric
