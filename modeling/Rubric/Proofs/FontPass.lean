/-
  Rubric — the font pass takes steps, and leaves definitions settled.

  * `Engine.FontPassGives`: what the pass of one node does;
  * **`secures_handleFonts`**: the pass of a node, however deep it nests;
  * **`spares_handleFonts`**: the fonts of a resolved definition are never asked
    for too early.
-/
import Rubric.Proofs.Step

namespace Rubric

open Context

variable {c c' : Context}

/-! ## Conversion -/

/-- All fonts in the texts of the definition are converted. -/
def Context.IsConvertedAt (c : Context) (id : DefinitionId) : Prop :=
  ∃ d, c.definition? id = some d ∧ ∀ content ∈ d.kind.contents, content.IsConverted

theorem Context.Steps.isConvertedAt {pass : Pass} {id : DefinitionId} (h : Steps pass c c')
    (hc : c.IsConvertedAt id) : c'.IsConvertedAt id := by
  obtain ⟨d, hd, hc⟩ := hc
  exact h.definition (P := fun kind => ∀ content ∈ kind.contents, content.IsConverted)
    (fun hk => hk.contents_converted) hd hc

/-- A definition of a sound context is settled once its fonts are converted and its parts and
    its target are settled. -/
theorem Context.IsSound.settled {id : DefinitionId} {d : Definition} (hs : c.IsSound)
    (hd : c.definition? id = some d) (hc : ∀ content ∈ d.kind.contents, content.IsConverted)
    (ha : d.kind.IsAimed) (hchildren : ∀ y ∈ d.kind.children, c.Settled y)
    (htarget : ∀ y, d.kind.target? = some y → c.Settled y) : c.Settled id := by
  refine .intro hd ⟨hc, ha⟩ fun y hy => ?_
  rcases DefinitionKind.mem_links.1 hy with ht | hchild | ht
  · obtain ⟨content, hmem, ht⟩ := DefinitionKind.mem_targets.1 ht
    exact (hs.fixed hd content hmem (hc content hmem)).targets y ht
  · exact hchildren y hchild
  · exact htarget y ht

/-- What is no part reference is settled once its fonts and its parts are. -/
theorem Context.IsSound.settled_of_steps {pass : Pass} {id : DefinitionId} {d : Definition}
    (hs : c'.IsSound) (hsteps : Steps pass c c') (hd : c.definition? id = some d)
    (hc : c'.IsConvertedAt id) (hchildren : ∀ y ∈ d.kind.children, c'.Settled y)
    (hr : ∀ reference, d.kind ≠ .partReference reference) : c'.Settled id := by
  obtain ⟨d', hd', hchild, hr'⟩ := hsteps.definition
    (P := fun kind => kind.children = d.kind.children ∧
      ∀ reference, kind ≠ .partReference reference)
    (fun hk h => ⟨hk.children_eq.trans h.1, hk.not_reference h.2⟩) hd ⟨rfl, hr⟩
  obtain ⟨d'', hd'', hconverted⟩ := hc
  rw [Option.some.inj (hd''.symm.trans hd')] at hconverted
  obtain ⟨haimed, hnone⟩ := DefinitionKind.isAimed_of_not_reference hr'
  exact hs.settled hd' hconverted haimed (hchild ▸ hchildren) (by simp [hnone])

/-- A text is converted under the tags in effect, and its footnotes with it. -/
theorem Engine.gives_convertContent {id : DefinitionId} {inlines : List Inline}
    {r : Except Error Unit} (h : (Engine.convertContent id inlines).Gives c r c') :
    ∃ tags d warnings, c.effectiveTags? id = some tags ∧ c.definition? id = some d ∧
      r = .ok () ∧ c' = ((c.warnAll warnings).modifyDefinition id fun d =>
        { d with kind := d.kind.mapContents fun content =>
          content.resolveFonts (Inline.remap c.fonts tags) }).rerouteFootnotes d.document
            (Inline.footnotes (Inline.remapList c.fonts tags inlines)) := by
  rw [Engine.convertContent, Engine.gives_get_bind, Engine.gives_ofOption_bind] at h
  obtain ⟨tags, htags, h⟩ := h
  rw [Engine.gives_definition_bind] at h
  obtain ⟨d, hd, h⟩ := h
  obtain ⟨hr, hc'⟩ := Engine.gives_set.1 h
  rw [modifyContent_eq] at hc'
  exact ⟨tags, d, _, htags, hd, hr, hc'⟩

/-- A handled text that is converted is converted then. -/
theorem isConvertedAt_convertContent {id : DefinitionId} {d : Definition} {inlines : List Inline}
    {r : Except Error Unit} (hd : c.definition? id = some d)
    (hh : ∀ content ∈ d.kind.contents, content.IsHandled)
    (h : (Engine.convertContent id inlines).Gives c r c') : c'.IsConvertedAt id := by
  obtain ⟨tags, d', warnings, -, -, -, rfl⟩ := Engine.gives_convertContent h
  have hd₁ : (c.warnAll warnings).definition? id = some d := hd
  refine ⟨_, by rw [rerouteFootnotes, definition?_modifyFootnotes, definition?_modifyDefinition,
    if_pos rfl, hd₁]; rfl, ?_⟩
  intro content' hmem
  obtain ⟨content, hold, rfl⟩ := DefinitionKind.mem_contents_mapContents.1 hmem
  exact Content.isConverted_resolveFonts (hh content hold) _

/-- Converting a text is a step once what its commands stand for is settled. -/
theorem steps_convertContent {id : DefinitionId} {d : Definition} {inlines : List Inline}
    {r : Except Error Unit} (hd : c.definition? id = some d)
    (hh : ∀ content ∈ d.kind.contents, content.IsHandled)
    (ht : ∀ t ∈ d.kind.targets, c.Settled t)
    (h : (Engine.convertContent id inlines).Gives c r c') :
    r = .ok () ∧ Steps .fonts c c' ∧ c'.IsConvertedAt id := by
  have hconverted := isConvertedAt_convertContent hd hh h
  obtain ⟨tags, d', _, htags, -, rfl, rfl⟩ := Engine.gives_convertContent h
  have hwrite : Step .fonts c (c.modifyDefinition id fun d =>
      { d with kind := d.kind.mapContents fun content =>
        content.resolveFonts (Inline.remap c.fonts tags) }) := by
    exact Step.modifyKind hd (.fonts rfl htags ht)
  -- warnings and footnotes are records
  have hrecords : ∀ (c₁ : Context) (warnings : List Warning) (document : Option DocumentId) f,
      Step .fonts (c₁.modifyDefinition id f) (((c₁.warnAll warnings).modifyDefinition id f
        ).rerouteFootnotes document (Inline.footnotes (Inline.remapList c₁.fonts tags inlines))) :=
    fun c₁ warnings document f => .of_core_eq (core_modifyFootnotes _ document _)
  exact ⟨rfl, hwrite.steps.trans (hrecords c _ _ _).steps, hconverted⟩

theorem Engine.convert_of_isConverted (targets : List DefinitionId → Engine Unit)
    (id : DefinitionId) {content : Content} (h : content.IsConverted) :
    Engine.convert targets id content = pure () := by
  obtain ⟨inlines, hstage⟩ := h
  rw [Engine.convert, hstage]

/-- The font pass of a text takes steps, and leaves the text converted. -/
theorem steps_convert {targets : List DefinitionId → Engine Unit}
    (ht : ∀ ids, (targets ids).Secures IsSound (Steps .fonts) fun _ c => ∀ t ∈ ids, c.Settled t)
    {id : DefinitionId} {d : Definition} {content : Content} {r : Except Error Unit}
    (hs : c.IsSound) (hd : c.definition? id = some d) (hcontent : content ∈ d.kind.contents)
    (h : (Engine.convert targets id content).Gives c r c') :
    Steps .fonts c c' ∧ (r = .ok () → c'.IsConvertedAt id) := by
  have hcontents := DefinitionKind.contents_eq_of_mem hcontent
  unfold Engine.convert at h
  split at h
  · obtain ⟨rfl, rfl⟩ := Engine.gives_fail.1 h
    exact ⟨.refl _, by simp⟩
  · rename_i inlines hstage
    obtain ⟨rfl, rfl⟩ := Engine.gives_pure.1 h
    refine ⟨.refl _, fun _ => ⟨d, hd, ?_⟩⟩
    rw [hcontents]
    intro content' hmem
    rw [List.mem_singleton.1 hmem]; exact ⟨inlines, hstage⟩
  · rename_i inlines hstage
    have hinlines : content.inlines = inlines := by rw [Content.inlines, hstage]
    have hkind : d.kind.targets = Inline.targets inlines := by
      rw [DefinitionKind.targets, hcontents]; simp [hinlines]
    have hhandled : ∀ content ∈ d.kind.contents, content.IsHandled := by
      rw [hcontents]
      intro content' hmem
      simp [List.mem_singleton.1 hmem, Content.IsHandled, hstage]
    rcases Engine.gives_bind.1 h with ⟨_, c₁, htargets, h⟩ | ⟨e, htargets, rfl⟩
    · obtain ⟨-, hsteps, hsettled⟩ := ht _ _ _ _ hs htargets
      obtain ⟨d₁, hd₁, hhandled₁, htargets₁⟩ := hsteps.definition
        (P := fun kind => (∀ content ∈ kind.contents, content.IsHandled) ∧
          kind.targets = d.kind.targets)
        (fun hk h => ⟨hk.handled h.1, (hk.targets_eq rfl).trans h.2⟩) hd ⟨hhandled, rfl⟩
      obtain ⟨-, hsteps', hconverted⟩ := steps_convertContent hd₁ hhandled₁
        (by rw [htargets₁, hkind]; exact hsettled _ rfl) h
      exact ⟨hsteps.trans hsteps', fun _ => hconverted⟩
    · exact ⟨(ht _ _ _ _ hs htargets).2.1, by simp⟩

/-! ## The font pass -/

namespace Engine

/-- What the font pass of a node does, and the context it leaves. -/
inductive FontPassGives (handle : DefinitionId → Engine Unit) (id : DefinitionId) (c : Context)
    (d : Definition) : Except Error Unit → Context → Prop
  /-- The text of the node, if it has one, after the definitions that its commands stand for;
      then the parts of the node. -/
  | parts {targets : List DefinitionId → Engine Unit} {r₁ r₂ : Except Error Unit}
      {c₁ c' : Context} :
      (∀ reference, d.kind ≠ .partReference reference) →
      (∀ ids, targets ids = ids.forM handle ∨ targets ids = runAll (ids.map handle)) →
      (d.kind.contents = [] ∧ r₁ = .ok () ∧ c₁ = c ∨
        ∃ content ∈ d.kind.contents, (convert targets id content).Gives c r₁ c₁) →
      (runAll (d.kind.children.map handle)).Gives c₁ r₂ c' →
      FontPassGives handle id c d (firstError r₁ r₂) c'
  /-- The target of a part reference. -/
  | target {reference : PartReference} {target : DefinitionId} {r : Except Error Unit}
      {c' : Context} :
      d.kind = .partReference reference → reference.target = some target →
      (handle target).Gives c r c' → FontPassGives handle id c d r c'
  /-- A part reference has no target. -/
  | missing {reference : PartReference} {e : Error} :
      d.kind = .partReference reference → reference.target = none →
      FontPassGives handle id c d (.error e) c

theorem gives_fontPass {handle : DefinitionId → Engine Unit} {id : DefinitionId}
    {r : Except Error Unit} (h : (fontPass handle id).Gives c r c') :
    ∃ d, c.definition? id = some d ∧ FontPassGives handle id c d r c' := by
  rw [fontPass, gives_definition_bind] at h
  obtain ⟨d, hd, h⟩ := h
  refine ⟨d, hd, ?_⟩
  split at h
  case h_1 content hk | h_2 content hk =>
    rw [← firstError_ok r]
    refine .parts (by simp [hk]) (fun ids => Or.inl rfl) (Or.inr ⟨content, ?_, h⟩) ?_
    · simp [hk, DefinitionKind.contents]
    · rw [hk]
      exact gives_pure.2 ⟨rfl, rfl⟩
  case h_3 body hk =>
    obtain ⟨r₁, c₁, r₂, htitle, hparts, rfl⟩ := gives_runAll_toList_append h
    refine .parts (by simp [hk]) (fun ids => Or.inr rfl) ?_ (by rw [hk]; exact hparts)
    rw [hk]
    exact htitle
  case h_4 reference hk =>
    split at h
    · rename_i target ht
      exact .target hk ht h
    · rename_i hnone
      obtain ⟨rfl, rfl⟩ := gives_fail.1 h
      exact .missing hk hnone
  case h_5 _ hk | h_6 _ hk | h_7 _ hk =>
    rw [← firstError_ok r]
    refine .parts (by simp [hk]) (fun ids => Or.inl rfl)
      (Or.inl ⟨by rw [hk]; rfl, (gives_pure.1 h).1, rfl⟩) ?_
    rw [hk]
    exact gives_pure.2 ⟨rfl, (gives_pure.1 h).2⟩

end Engine

section
variable {handle : DefinitionId → Engine Unit}
  (hh : ∀ id, (handle id).Secures IsSound (Steps .fonts) fun _ c => c.Settled id)
include hh

theorem secures_runAll_handle (ids : List DefinitionId) :
    (Engine.runAll (ids.map handle)).Secures IsSound (Steps .fonts)
      fun _ c => ∀ t ∈ ids, c.Settled t :=
  Engine.Secures.runAll (composes_steps .fonts) (Q := fun t c => c.Settled t)
    (fun _ _ _ hsteps ht => hsteps.settled ht) fun t _ => hh t

theorem secures_forM_handle (ids : List DefinitionId) :
    (ids.forM handle).Secures IsSound (Steps .fonts) fun _ c => ∀ t ∈ ids, c.Settled t :=
  Engine.Secures.forM (composes_steps .fonts) (Q := fun t c => c.Settled t)
    (fun _ _ _ hsteps ht => hsteps.settled ht) fun t _ => hh t

/-- **The font pass of a node takes steps, and leaves the node settled.** -/
theorem secures_fontPass (id : DefinitionId) :
    (Engine.fontPass handle id).Secures IsSound (Steps .fonts) fun _ c => c.Settled id := by
  intro c r c' hs h
  suffices hgoal : Steps .fonts c c' ∧ (r = .ok () → c'.Settled id) from
    ⟨hgoal.1.isSound hs, hgoal.1, fun _ hr => hgoal.2 hr⟩
  obtain ⟨d, hd, hgives⟩ := Engine.gives_fontPass h
  cases hgives with
  | @parts targets r₁ r₂ c₁ _ hkind hall htext hparts =>
    have htext : Steps .fonts c c₁ ∧ (r₁ = .ok () → c₁.IsConvertedAt id) := by
      rcases htext with ⟨hnil, rfl, rfl⟩ | ⟨content, hmem, hcontent⟩
      · exact ⟨.refl _, fun _ => ⟨d, hd, by rw [hnil]; simp⟩⟩
      · refine steps_convert (fun ids => ?_) hs hd hmem hcontent
        rcases hall ids with htargets | htargets <;> rw [htargets]
        · exact secures_forM_handle hh ids
        · exact secures_runAll_handle hh ids
    obtain ⟨hsteps, hconverted⟩ := htext
    obtain ⟨-, hsteps', hchildren⟩ := secures_runAll_handle hh _ _ _ _ (hsteps.isSound hs) hparts
    have hboth := hsteps.trans hsteps'
    refine ⟨hboth, fun hr => ?_⟩
    obtain ⟨hr₁, hr₂⟩ := Engine.firstError_eq_ok.1 hr
    have hconverted : c'.IsConvertedAt id := hsteps'.isConvertedAt (hconverted hr₁)
    exact (hboth.isSound hs).settled_of_steps hboth hd hconverted (hchildren () hr₂) hkind
  | @target reference target _ _ hk ht hgives =>
    obtain ⟨-, hsteps, hr⟩ := hh target _ _ _ hs hgives
    refine ⟨hsteps, fun hok => ?_⟩
    obtain ⟨d', hd', reference', hk', ht'⟩ := hsteps.definition
      (P := fun kind => ∃ reference, kind = .partReference reference ∧
        reference.target = some target) (fun hk => hk.reference) hd ⟨reference, hk, ht⟩
    refine (hsteps.isSound hs).settled hd' ?_ ?_ ?_ ?_ <;> rw [hk']
    · simp [DefinitionKind.contents]
    · rintro _ ⟨⟩; rw [ht']; rfl
    · simp [DefinitionKind.children]
    · intro y hy
      rw [DefinitionKind.target?, ht'] at hy; cases hy
      exact hr () hok
  | missing => exact ⟨.refl _, by simp⟩

end

/-- **From a sound context the font pass takes steps, and if it ends with a value, the
    definition is settled.** -/
theorem secures_handleFonts (n : Nat) (id : DefinitionId) :
    (Engine.handleFonts n id).Secures IsSound (Steps .fonts) fun _ c => c.Settled id := by
  induction n generalizing id with
  | zero =>
    intro c r c' _ h
    exact (Engine.gives_endless.1 h).elim
  | succ n ih =>
    intro c r c' hs h
    rw [Engine.handleFonts, Engine.gives_definition_bind] at h
    obtain ⟨d, -, h⟩ := h
    exact Engine.Secures.nested (composes_steps .fonts)
      (fun c depth => Step.steps (.of_core_eq (c.core_atDepth depth)))
      (fun depth hs => (Step.of_core_eq (core_atDepth _ depth) : Step .fonts _ _).isSound hs)
      (fun hsteps => hsteps.settled)
      (secures_fontPass ih id) _ _ _ hs h

/-! ## Fonts asked for too early -/

/-- From the context the computation does not end with an ordering error. -/
def Engine.Spares (x : Engine Unit) (c : Context) : Prop :=
  ∀ e c', x.Gives c (.error e) c' → e.cause.kind ≠ .ordering

section
variable {handle : DefinitionId → Engine Unit}
  (hh : ∀ id, (handle id).Secures IsSound (Steps .fonts) fun _ c => c.Settled id)
  (hp : ∀ id {c : Context}, c.IsSound → c.Resolved id → (handle id).Spares c)
include hh hp

theorem spares_runAll {ids : List DefinitionId} (hs : c.IsSound)
    (hr : ∀ id ∈ ids, c.Resolved id) : (Engine.runAll (ids.map handle)).Spares c := by
  induction ids generalizing c with
  | nil =>
    intro e c' h
    have herror := (Engine.gives_pure.1 h).1
    cases herror
  | cons id ids ih =>
    intro e c' h
    obtain ⟨r₁, c₁, r₂, h₁, h₂, he⟩ := Engine.gives_runAll_cons.1 h
    obtain ⟨hs₁, hsteps, -⟩ := hh id _ _ _ hs h₁
    rcases r₁ with e₁ | ⟨⟨⟩⟩
    · cases he; exact hp id hs (hr id (by simp)) _ _ h₁
    · cases he
      exact ih hs₁ (fun t ht => hsteps.resolved (hr t (by simp [ht]))) _ _ h₂

theorem spares_forM {ids : List DefinitionId} (hs : c.IsSound)
    (hr : ∀ id ∈ ids, c.Resolved id) : Engine.Spares (ids.forM handle) c := by
  induction ids generalizing c with
  | nil =>
    intro e c' h
    have herror := (Engine.gives_pure.1 h).1
    cases herror
  | cons id ids ih =>
    intro e c' h
    rcases Engine.gives_bind.1 h with ⟨_, c₁, h₁, h₂⟩ | ⟨e, h₁, he⟩
    · obtain ⟨hs₁, hsteps, -⟩ := hh id _ _ _ hs h₁
      exact ih hs₁ (fun t ht => hsteps.resolved (hr t (by simp [ht]))) _ _ h₂
    · cases he; exact hp id hs (hr id (by simp)) _ _ h₁

omit hh hp in
/-- The fonts of a handled text are not asked for too early if those of the definitions that its
    commands stand for are not. -/
theorem spares_convert {targets : List DefinitionId → Engine Unit} {id : DefinitionId}
    {content : Content} (hh : content.IsHandled)
    (ht : (targets (Inline.targets content.inlines)).Spares c) :
    (Engine.convert targets id content).Spares c := by
  intro e c' h
  unfold Engine.convert at h
  split at h
  · rename_i hstage
    exact absurd hstage hh
  · have herror := (Engine.gives_pure.1 h).1
    cases herror
  · rename_i inlines hstage
    rw [show content.inlines = inlines by rw [Content.inlines, hstage]] at ht
    rcases Engine.gives_bind.1 h with ⟨_, c₁, -, h⟩ | ⟨e, h, he⟩
    · obtain ⟨_, _, _, -, -, herror, -⟩ := Engine.gives_convertContent h
      cases herror
    · cases he; exact ht _ _ h

theorem spares_fontPass {id : DefinitionId} (hs : c.IsSound) (hr : c.Resolved id) :
    (Engine.fontPass handle id).Spares c := by
  obtain ⟨d, hd, hresolved, hlinks⟩ := resolved_iff.1 hr
  have htargets : ∀ content ∈ d.kind.contents, ∀ t ∈ Inline.targets content.inlines,
      c.Resolved t := by
    intro content hmem t ht
    exact hlinks t (DefinitionKind.mem_links_of_text hmem ht)
  intro e c' h
  obtain ⟨d', hd', hgives⟩ := Engine.gives_fontPass h
  obtain rfl : d = d' := Option.some.inj (hd.symm.trans hd')
  -- the result becomes an equation, which the cases below take apart
  generalize he : Except.error e = r at hgives
  cases hgives with
  | @parts targets r₁ r₂ c₁ _ hkind hall htext hparts =>
    have htext : Steps .fonts c c₁ ∧ ∀ e, r₁ = .error e → e.cause.kind ≠ .ordering := by
      rcases htext with ⟨-, rfl, rfl⟩ | ⟨content, hmem, hcontent⟩
      · exact ⟨.refl _, by simp⟩
      · constructor
        · refine (steps_convert (fun ids => ?_) hs hd hmem hcontent).1
          rcases hall ids with heq | heq <;> rw [heq]
          · exact secures_forM_handle hh ids
          · exact secures_runAll_handle hh ids
        · rintro e rfl
          refine spares_convert (hresolved.handled content hmem) ?_ _ _ hcontent
          rcases hall (Inline.targets content.inlines) with heq | heq <;> rw [heq]
          · exact spares_forM hh hp hs (htargets content hmem)
          · exact spares_runAll hh hp hs (htargets content hmem)
    obtain ⟨hsteps, hfirst⟩ := htext
    rcases r₁ with e₁ | ⟨⟨⟩⟩
    · cases he
      exact hfirst _ rfl
    · cases he
      have hchildren : ∀ y ∈ d.kind.children, c₁.Resolved y := by
        intro y hy
        exact hsteps.resolved (hlinks y (DefinitionKind.mem_links_of_child hy))
      exact spares_runAll hh hp (hsteps.isSound hs) hchildren _ _ hparts
  | @target reference target _ _ hk ht hgives =>
    cases he
    have htarget : d.kind.target? = some target := by rw [hk]; exact ht
    have hresolved := hlinks target (DefinitionKind.mem_links_of_target htarget)
    exact hp target hs hresolved _ _ hgives
  | @missing reference _ hk hnone =>
    have haimed := hresolved.aimed reference hk
    rw [hnone] at haimed; cases haimed

end

/-- **The fonts of a resolved definition are never asked for too early.** -/
theorem spares_handleFonts (n : Nat) (id : DefinitionId) (hs : c.IsSound) (hr : c.Resolved id) :
    (Engine.handleFonts n id).Spares c := by
  induction n generalizing c id with
  | zero =>
    intro e c' h
    exact (Engine.gives_endless.1 h).elim
  | succ n ih =>
    intro e c' h
    rw [Engine.handleFonts, Engine.gives_definition_bind] at h
    obtain ⟨d, -, h⟩ := h
    rcases Engine.gives_nested h with ⟨limit, -, -, he, -⟩ | ⟨r₁, c₁, h₁, he, -⟩
    · cases he
      simp [Error.ofCause, Cause.kind]
    · have hdeeper : Steps .fonts c (c.atDepth (c.depth + 1)) :=
        Step.steps (.of_core_eq (c.core_atDepth _))
      rcases r₁ with e₁ | ⟨⟨⟩⟩
      · have hinner := spares_fontPass (secures_handleFonts n) (fun id _ hs hr => ih id hs hr)
          (hdeeper.isSound hs) (hdeeper.resolved hr) _ _ h₁
        cases he; exact hinner
      · cases he

end Rubric
