/-
  Rubric — the steps of a pass, and what holds after any number of them.

  * `DefinitionKind.Step`: how one step of a pass may change a definition;
    `Context.Step`: one step on the whole context, `Context.Steps`: any number;
  * what a step keeps: tags in effect, resolved and settled definitions;
  * `Context.IsSound`: every text holds executed commands only, which stand for
    resolved definitions; what is converted is so all the way;
  * **`Context.Step.isSound`**: steps keep this.
-/
import Rubric.Proofs.Reach
import Rubric.Proofs.Session

namespace Rubric

/-! ## Contents -/

namespace Content

theorem isConverted_resolveFonts {content : Content} (h : content.IsHandled)
    (f : Inline → Inline) : (content.resolveFonts f).IsConverted := by
  rcases content with ⟨source, _ | inlines | inlines⟩
  · exact absurd rfl h
  · exact ⟨_, rfl⟩
  · exact ⟨_, rfl⟩

theorem resolveFonts_of_isConverted {content : Content} (h : content.IsConverted)
    (f : Inline → Inline) : content.resolveFonts f = content := by
  obtain ⟨inlines, h⟩ := h
  rw [resolveFonts, h]

theorem resolveFonts_resolveFonts (content : Content) (f g : Inline → Inline) :
    (content.resolveFonts f).resolveFonts g = content.resolveFonts f := by
  rcases content with ⟨source, _ | inlines | inlines⟩ <;> rfl

theorem isHandled_resolveFonts {content : Content} {f : Inline → Inline} :
    (content.resolveFonts f).IsHandled ↔ content.IsHandled := by
  rcases content with ⟨source, _ | inlines | inlines⟩ <;> simp [resolveFonts, IsHandled]

theorem isHandled_resolveCommands (content : Content) (inlines : List Inline) :
    (content.resolveCommands inlines).IsHandled := by
  simp [IsHandled, resolveCommands]

theorem not_isConverted_resolveCommands (content : Content) (inlines : List Inline) :
    ¬ (content.resolveCommands inlines).IsConverted := by
  rintro ⟨l, h⟩; rw [resolveCommands] at h; cases h

theorem targets_resolveFonts (content : Content) (fonts : FontRegistry) (tags : Tags) :
    Inline.targets (content.resolveFonts (Inline.remap fonts tags)).inlines =
      Inline.targets content.inlines := by
  rcases content with ⟨source, _ | inlines | inlines⟩
  · rfl
  · exact Inline.targets_map_remap inlines
  · rfl

theorem isExecuted_resolveFonts {content : Content} (fonts : FontRegistry) (tags : Tags)
    (h : ∀ i ∈ content.inlines, i.IsExecuted) :
    ∀ i ∈ (content.resolveFonts (Inline.remap fonts tags)).inlines, i.IsExecuted := by
  rcases content with ⟨source, _ | inlines | inlines⟩
  · exact h
  · intro j hj
    obtain ⟨i, hi, rfl⟩ := List.mem_map.1 hj
    exact Inline.isExecuted_remap (h i hi)
  · exact h

end Content

/-! ## Steps -/

/-- The two passes. -/
inductive Pass where
  | commands
  | fonts

/-- The definition is a multilingual value. -/
def Context.IsMultilingual (c : Context) (id : DefinitionId) : Prop :=
  ∃ d, c.definition? id = some d ∧ d.kind.IsMultilingual

/-- How one step of a pass in the context `c` may change what the definition `x` holds. -/
inductive DefinitionKind.Step (pass : Pass) (c : Context) (x : DefinitionId) :
    DefinitionKind → DefinitionKind → Prop
  | same (kind : DefinitionKind) : Step pass c x kind kind
  /-- A part reference gets its target. -/
  | target {reference : PartReference} {target : DefinitionId} :
      pass = .commands → reference.target = none →
      Step pass c x (.partReference reference)
        (.partReference { reference with target := some target })
  /-- The commands of a text are handled. -/
  | commands {kind : DefinitionKind} {inlines : List Inline} :
      pass = .commands → (∀ content ∈ kind.contents, ¬ content.IsConverted) →
      (∀ i ∈ inlines, i.IsExecuted) →
      (∀ t ∈ Inline.targets inlines, c.Resolved t ∧ ¬ c.IsMultilingual t) →
      Step pass c x kind (kind.mapContents fun content => content.resolveCommands inlines)
  /-- The fonts of a text are converted. -/
  | fonts {kind : DefinitionKind} {tags : Tags} :
      pass = .fonts → c.effectiveTags? x = some tags → (∀ t ∈ kind.targets, c.Settled t) →
      Step pass c x kind
        (kind.mapContents fun content => content.resolveFonts (Inline.remap c.fonts tags))

namespace DefinitionKind

theorem isAimed_mapContents {f : Content → Content} {kind : DefinitionKind} :
    (kind.mapContents f).IsAimed ↔ kind.IsAimed := by
  cases kind <;> simp [IsAimed, mapContents]

/-- A map that leaves all texts as they are. -/
theorem mapContents_eq_self {f : Content → Content} {kind : DefinitionKind}
    (h : ∀ content ∈ kind.contents, f content = content) : kind.mapContents f = kind := by
  rcases kind with ⟨_ | title, _⟩ | content | content | _ | _ | _ | _ <;>
    simp_all [mapContents, contents]

theorem isAimed_of_not_reference {kind : DefinitionKind}
    (h : ∀ reference, kind ≠ .partReference reference) : kind.IsAimed ∧ kind.target? = none := by
  refine ⟨fun reference hr => absurd hr (h reference), ?_⟩
  cases kind with
  | partReference reference => exact absurd rfl (h reference)
  | _ => rfl

/-- A definition has one text at most. -/
theorem contents_eq_of_mem {kind : DefinitionKind} {content : Content}
    (h : content ∈ kind.contents) : kind.contents = [content] := by
  rcases kind with ⟨_ | title, _⟩ | text | text | _ | _ | _ | _ <;> simp_all [contents]

theorem mem_targets_resolveCommands {kind : DefinitionKind} {inlines : List Inline}
    {t : DefinitionId}
    (h : t ∈ (kind.mapContents fun content => content.resolveCommands inlines).targets) :
    t ∈ Inline.targets inlines := by
  obtain ⟨content', hcontent, ht⟩ := mem_targets.1 h
  obtain ⟨content, -, rfl⟩ := mem_contents_mapContents.1 hcontent
  exact ht

theorem targets_resolveFonts (kind : DefinitionKind) (fonts : FontRegistry) (tags : Tags) :
    (kind.mapContents fun content => content.resolveFonts (Inline.remap fonts tags)).targets =
      kind.targets := by
  rcases kind with ⟨_ | title, _⟩ | content | content | _ | _ | _ | _ <;>
    simp [mapContents, targets, contents, Content.targets_resolveFonts]

namespace Step

variable {pass : Pass} {c : Context} {x : DefinitionId} {k k' : DefinitionKind}
  (h : Step pass c x k k')
include h

theorem children_eq : k'.children = k.children := by
  cases h with
  | same => rfl
  | target => rfl
  | commands | fonts => exact children_mapContents _ _

theorem isMultilingual_iff : k'.IsMultilingual ↔ k.IsMultilingual := by
  cases h with
  | same => rfl
  | target => simp [IsMultilingual]
  | commands | fonts => exact isMultilingual_mapContents

/-- A target that is set stays. -/
theorem reference {target : DefinitionId}
    (hr : ∃ reference, k = .partReference reference ∧ reference.target = some target) :
    ∃ reference, k' = .partReference reference ∧ reference.target = some target := by
  obtain ⟨reference, rfl, ht⟩ := hr
  cases h with
  | same => exact ⟨reference, rfl, ht⟩
  | target _ hnone => rw [hnone] at ht; cases ht
  | commands | fonts => exact ⟨reference, rfl, ht⟩

/-- What is no part reference becomes none. -/
theorem not_reference (hr : ∀ reference, k ≠ .partReference reference) :
    ∀ reference, k' ≠ .partReference reference := by
  cases h with
  | same => exact hr
  | target => exact absurd rfl (hr _)
  | commands | fonts =>
    intro reference he
    cases k <;> simp [mapContents] at he
    exact hr _ rfl

theorem isAimed (ha : k.IsAimed) : k'.IsAimed := by
  cases h with
  | same => exact ha
  | target => rintro _ ⟨⟩; rfl
  | commands | fonts => exact isAimed_mapContents.2 ha

theorem handled (hh : ∀ content ∈ k.contents, content.IsHandled) :
    ∀ content ∈ k'.contents, content.IsHandled := by
  cases h with
  | same => exact hh
  | target => exact hh
  | commands =>
    intro content' hcontent
    obtain ⟨content, -, rfl⟩ := mem_contents_mapContents.1 hcontent
    exact content.isHandled_resolveCommands _
  | fonts =>
    intro content' hcontent
    obtain ⟨content, hmem, rfl⟩ := mem_contents_mapContents.1 hcontent
    exact Content.isHandled_resolveFonts.2 (hh content hmem)

theorem executed (hx : ∀ content ∈ k.contents, ∀ i ∈ content.inlines, i.IsExecuted) :
    ∀ content ∈ k'.contents, ∀ i ∈ content.inlines, i.IsExecuted := by
  cases h with
  | same => exact hx
  | target => exact hx
  | commands _ _ hexecuted =>
    intro content' hcontent
    obtain ⟨content, -, rfl⟩ := mem_contents_mapContents.1 hcontent
    exact hexecuted
  | fonts =>
    intro content' hcontent
    obtain ⟨content, hmem, rfl⟩ := mem_contents_mapContents.1 hcontent
    exact Content.isExecuted_resolveFonts _ _ (hx content hmem)

/-- A command stands for what it stood for, or for what the step has resolved. -/
theorem mem_targets {t : DefinitionId} (ht : t ∈ k'.targets) :
    t ∈ k.targets ∨ c.Resolved t ∧ ¬ c.IsMultilingual t := by
  cases h with
  | same => exact Or.inl ht
  | target => exact Or.inl ht
  | commands _ _ _ htargets => exact Or.inr (htargets t (mem_targets_resolveCommands ht))
  | fonts =>
    rw [targets_resolveFonts] at ht
    exact Or.inl ht

/-- A text that is converted was so before, or the step has converted it. -/
theorem of_isConverted {content' : Content} (hmem : content' ∈ k'.contents)
    (hc : content'.IsConverted) : content' ∈ k.contents ∨
      ∃ content ∈ k.contents, ∃ tags, c.effectiveTags? x = some tags ∧
        ¬ content.IsConverted ∧ (∀ t ∈ k.targets, c.Settled t) ∧
          content.resolveFonts (Inline.remap c.fonts tags) = content' := by
  cases h with
  | same => exact Or.inl hmem
  | target => exact Or.inl hmem
  | commands =>
    obtain ⟨content, -, rfl⟩ := mem_contents_mapContents.1 hmem
    exact absurd hc (content.not_isConverted_resolveCommands _)
  | @fonts _ tags _ htags hsettled =>
    obtain ⟨content, hcontent, rfl⟩ := mem_contents_mapContents.1 hmem
    by_cases hold : content.IsConverted
    · rw [Content.resolveFonts_of_isConverted hold]
      exact Or.inl hcontent
    · exact Or.inr ⟨content, hcontent, tags, htags, hold, hsettled, rfl⟩

/-- What is converted does not change any more. -/
theorem eq_of_isConverted (hc : k.IsConverted) : k' = k := by
  cases h with
  | same => rfl
  | target _ hnone =>
    have haimed := hc.aimed _ rfl
    rw [hnone] at haimed; cases haimed
  | commands _ hunconverted =>
    refine mapContents_eq_self fun content hmem => ?_
    exact absurd (hc.contents content hmem) (hunconverted content hmem)
  | fonts =>
    exact mapContents_eq_self fun content hmem =>
      Content.resolveFonts_of_isConverted (hc.contents content hmem) _

theorem contents_converted (hc : ∀ content ∈ k.contents, content.IsConverted) :
    ∀ content ∈ k'.contents, content.IsConverted := by
  cases h with
  | same => exact hc
  | target => exact hc
  | commands _ hunconverted =>
    rw [mapContents_eq_self fun content hmem =>
      absurd (hc content hmem) (hunconverted content hmem)]
    exact hc
  | fonts =>
    rw [mapContents_eq_self fun content hmem =>
      Content.resolveFonts_of_isConverted (hc content hmem) _]
    exact hc

/-- The command pass converts nothing. -/
theorem unconverted (hp : pass = .commands) (hk : ∀ content ∈ k.contents, ¬ content.IsConverted) :
    ∀ content ∈ k'.contents, ¬ content.IsConverted := by
  cases h with
  | same => exact hk
  | target => exact hk
  | commands =>
    intro content' hcontent
    obtain ⟨content, -, rfl⟩ := mem_contents_mapContents.1 hcontent
    exact content.not_isConverted_resolveCommands _
  | fonts hfonts => rw [hp] at hfonts; cases hfonts

/-- The font pass leaves the commands as they are. -/
theorem targets_eq (hp : pass = .fonts) : k'.targets = k.targets := by
  cases h with
  | same => rfl
  | target hcommands => rw [hp] at hcommands; cases hcommands
  | commands hcommands => rw [hp] at hcommands; cases hcommands
  | fonts => exact targets_resolveFonts _ _ _

/-- What a resolved definition becomes is resolved, and leads to what is resolved. -/
theorem isResolved (hr : k.IsResolved) (hlinks : ∀ y ∈ k.links, c.Resolved y) :
    k'.IsResolved ∧ ∀ y ∈ k'.links, c.Resolved y := by
  refine ⟨⟨h.handled hr.handled, h.executed hr.executed, h.isAimed hr.aimed⟩, fun y hy => ?_⟩
  rcases mem_links.1 hy with ht | hy
  · exact (h.mem_targets ht).elim (fun ht => hlinks y (mem_links.2 (Or.inl ht))) And.left
  · refine hlinks y (mem_links.2 (Or.inr ?_))
    cases h with
    | same => exact hy
    | target _ hnone =>
      -- it is aimed, so its target was set before
      have haimed := hr.aimed _ rfl
      rw [hnone] at haimed; cases haimed
    | commands | fonts => rwa [children_mapContents, target?_mapContents] at hy

end Step

end DefinitionKind

namespace Context

/-! ## Definitions that stay -/

section
variable {c c' : Context} (hold : ∀ {x d}, c.definition? x = some d →
  ∃ references kind, c'.definition? x = some { d with references, kind })
include hold

theorem size_le_of_old : c.definitions.size ≤ c'.definitions.size := by
  rcases Nat.eq_zero_or_pos c.definitions.size with h0 | hpos
  · omega
  · have hlast : c.definition? ⟨c.definitions.size - 1⟩ =
        some c.definitions[c.definitions.size - 1] := Array.getElem?_eq_getElem _
    obtain ⟨_, _, hd'⟩ := hold hlast
    have hlt := index_lt_of_definition? hd'
    dsimp only at hlt
    omega

/-- Definitions that change in their records and in what they hold keep their tags in effect. -/
theorem effectiveTags?_of_old {x : DefinitionId} {tags : Tags}
    (ht : c.effectiveTags? x = some tags) : c'.effectiveTags? x = some tags := by
  have hwithin : ∀ n m found x tags, n ≤ m → c.tagsWithin n found x = some tags →
      c'.tagsWithin m found x = some tags := by
    intro n
    induction n with
    | zero => intro m found x tags _ ht; cases ht
    | succ n ih =>
      intro m found x tags hle ht
      obtain ⟨m, rfl⟩ : ∃ k, m = k + 1 := ⟨m - 1, by omega⟩
      rcases hd : c.definition? x with _ | d
      · simp [tagsWithin, hd] at ht
      · obtain ⟨references, kind, hd'⟩ := hold hd
        have hown : ({ d with references, kind } : Definition).ownTags = d.ownTags := rfl
        simp only [tagsWithin, hd, hd', Option.bind_eq_bind, Option.bind_some, hown] at ht ⊢
        by_cases hfound : (found.inherit d.ownTags).isComplete = true
        · rw [if_pos hfound] at ht ⊢; exact ht
        · rw [if_neg hfound] at ht ⊢
          rcases hp : d.parent with _ | parent
          · simpa only [hp] using ht
          · simp only [hp] at ht ⊢
            exact ih m _ parent tags (by omega) ht
  exact hwithin _ _ _ x tags (size_le_of_old hold) ht

end

/-! ## Steps of contexts -/

/-- One step of a pass.  Definitions that it adds are booleans with no parent; only the command
    pass adds any. -/
structure Step (pass : Pass) (c c' : Context) : Prop where
  fonts : c'.fonts = c.fonts
  documents : c'.documents.map Document.core = c.documents.map Document.core
  old : ∀ {x d}, c.definition? x = some d → ∃ references kind,
    c'.definition? x = some { d with references, kind } ∧ d.kind.Step pass c x kind
  new : ∀ {x d'}, c.definition? x = none → c'.definition? x = some d' →
    pass = .commands ∧ d'.parent = none ∧ ∃ value, d'.kind = .boolean value

/-- Any number of steps of a pass. -/
def Steps (pass : Pass) : Context → Context → Prop :=
  Relation.ReflTransGen (Step pass)

variable {pass : Pass} {c c' : Context} {id : DefinitionId}

theorem Steps.refl (c : Context) : Steps pass c c :=
  Relation.ReflTransGen.refl

theorem Steps.trans {c₁ c₂ c₃ : Context} (h : Steps pass c₁ c₂) (h' : Steps pass c₂ c₃) :
    Steps pass c₁ c₃ :=
  Relation.ReflTransGen.trans h h'

theorem Step.steps (h : Step pass c c') : Steps pass c c' :=
  Relation.ReflTransGen.single h

theorem composes_steps (pass : Pass) : Engine.Composes (Steps pass) where
  refl := Steps.refl
  trans := Steps.trans

/-- A change of records only is a step. -/
theorem Step.of_core_eq (h : c'.core = c.core) : Step pass c c' where
  fonts := show c'.core.fonts = c.core.fonts by rw [h]
  documents := show c'.core.documents = c.core.documents by rw [h]
  old := by
    intro x d hd
    obtain ⟨references, hd'⟩ := definition?_of_core_eq h hd
    exact ⟨references, d.kind, hd', .same _⟩
  new := by
    intro x d' hnone hd'
    obtain ⟨references, hd⟩ := definition?_of_core_eq h.symm hd'
    rw [hnone] at hd; cases hd

theorem Step.addBoolean (c : Context) (key : String) (value : Bool) :
    Step .commands c (c.addBoolean none key value).2 where
  fonts := by
    obtain ⟨warnings, hmade⟩ := c.exists_addBoolean key value
    rw [hmade]; rfl
  documents := by
    obtain ⟨warnings, hmade⟩ := c.exists_addBoolean key value
    rw [hmade]; rfl
  old hd := ⟨_, _, definition?_addDefinition_of_some hd, .same _⟩
  new := by
    intro x d' hnone hd'
    rcases of_definition?_addDefinition hd' with hd' | ⟨-, rfl⟩
    · rw [hnone] at hd'; cases hd'
    · exact ⟨rfl, rfl, value, rfl⟩

/-- A change of one definition is a step if it is one of its kind. -/
theorem Step.modifyKind {f : DefinitionKind → DefinitionKind} {d : Definition}
    (hid : c.definition? id = some d) (h : d.kind.Step pass c id (f d.kind)) :
    Step pass c (c.modifyDefinition id fun d => { d with kind := f d.kind }) where
  fonts := rfl
  documents := rfl
  old := by
    intro x d hd
    rw [definition?_modifyDefinition]
    by_cases he : id = x
    · subst he
      rw [hid] at hd
      cases hd
      exact ⟨d.references, f d.kind, by simp [hid], h⟩
    · exact ⟨d.references, d.kind, by simp [he, hd], .same _⟩
  new := by
    intro x d' hnone hd'
    rw [definition?_modifyDefinition, hnone] at hd'
    split at hd' <;> cases hd'

namespace Step

variable (h : Step pass c c')
include h

/-- Steps keep the tags in effect. -/
theorem effectiveTags? {x : DefinitionId} {tags : Tags} (ht : c.effectiveTags? x = some tags) :
    c'.effectiveTags? x = some tags :=
  effectiveTags?_of_old (fun hd => (h.old hd).imp fun _ ⟨kind, hd', _⟩ => ⟨kind, hd'⟩) ht

theorem isMultilingual {x : DefinitionId} (hx : c'.IsMultilingual x) : c.IsMultilingual x := by
  obtain ⟨d', hd', hm⟩ := hx
  rcases hd : c.definition? x with _ | d
  · obtain ⟨-, -, value, hv⟩ := h.new hd hd'
    obtain ⟨runs, hr⟩ := hm
    rw [hv] at hr; cases hr
  · obtain ⟨references, kind, hd'', hk⟩ := h.old hd
    rw [hd''] at hd'; cases hd'
    exact ⟨d, hd, hk.isMultilingual_iff.1 hm⟩

/-- Steps keep resolved what is resolved. -/
theorem resolved {x : DefinitionId} (hx : c.Resolved x) : c'.Resolved x := by
  refine hx.of_links fun y d _ hd hr hlinks => ?_
  obtain ⟨references, kind, hd', hk⟩ := h.old hd
  exact ⟨_, hd', hk.isResolved hr hlinks⟩

/-- Steps keep settled what is settled. -/
theorem settled {x : DefinitionId} (hx : c.Settled x) : c'.Settled x := by
  refine hx.of_kind_eq fun y d hd hc => ?_
  obtain ⟨references, kind, hd', hk⟩ := h.old hd
  exact ⟨_, hd', hk.eq_of_isConverted hc⟩

/-- What a definition after the step was before it. -/
theorem definition {x : DefinitionId} {d' : Definition} (hd' : c'.definition? x = some d') :
    (pass = .commands ∧ d'.parent = none ∧ ∃ value, d'.kind = .boolean value) ∨
      ∃ d, c.definition? x = some d ∧ d'.parent = d.parent ∧ d.kind.Step pass c x d'.kind := by
  rcases hd : c.definition? x with _ | d
  · exact Or.inl (h.new hd hd')
  · obtain ⟨references, kind, hd'', hk⟩ := h.old hd
    rw [hd''] at hd'; cases hd'
    exact Or.inr ⟨d, rfl, rfl, hk⟩

end Step

/-! ## Sound contexts -/

/-- A text whose fonts are converted is so under the tags in effect, and commands in it stand for
    settled definitions. -/
structure IsFixed (c : Context) (x : DefinitionId) (content : Content) : Prop where
  targets : ∀ t ∈ Inline.targets content.inlines, c.Settled t
  remap : ∃ tags, c.effectiveTags? x = some tags ∧
    ∀ i ∈ content.inlines, i.remap c.fonts tags = i

/-- What holds of a context that passes work on. -/
structure IsSound (c : Context) : Prop where
  executed : ∀ {x d}, c.definition? x = some d →
    ∀ content ∈ d.kind.contents, ∀ i ∈ content.inlines, i.IsExecuted
  targets : ∀ {x d}, c.definition? x = some d →
    ∀ t ∈ d.kind.targets, c.Resolved t ∧ ¬ c.IsMultilingual t
  children : ∀ {x d}, c.definition? x = some d → ∀ y ∈ d.kind.children, ¬ c.IsMultilingual y
  fixed : ∀ {x d}, c.definition? x = some d →
    ∀ content ∈ d.kind.contents, content.IsConverted → c.IsFixed x content
  parents : ∀ {x d p}, c.definition? x = some d → d.parent = some p → p.index < x.index

theorem IsFresh.isSound (h : c.IsFresh) : c.IsSound where
  executed hd content hcontent :=
    Content.isExecuted_of_unparsed (h.contents hd content hcontent)
  targets := by
    intro x d hd t ht
    obtain ⟨content, hcontent, ht⟩ := DefinitionKind.mem_targets.1 ht
    rw [Content.targets_of_unparsed (h.contents hd content hcontent)] at ht
    cases ht
  children := by
    rintro x d hd y hy ⟨d', hd', hm⟩
    obtain ⟨d'', hd'', hm', -⟩ := h.children hd y hy
    rw [hd'] at hd''; cases hd''
    exact hm' hm
  fixed := by
    rintro x d hd content hcontent ⟨inlines, hstage⟩
    rw [h.contents hd content hcontent] at hstage; cases hstage
  parents hd hp := h.parents hd hp

/-- Definitions of a sound context have tags in effect. -/
theorem IsSound.effectiveTags? (hs : c.IsSound) {x : DefinitionId} {d : Definition}
    (hd : c.definition? x = some d) : ∃ tags, c.effectiveTags? x = some tags := by
  have hwithin : ∀ n found x d, c.definition? x = some d → x.index < n →
      ∃ tags, c.tagsWithin n found x = some tags := by
    intro n
    induction n with
    | zero => intro found x d _ hlt; omega
    | succ n ih =>
      intro found x d hd hlt
      simp only [tagsWithin, hd, Option.bind_eq_bind, Option.bind_some]
      split
      · exact ⟨_, rfl⟩
      rcases hp : d.parent with _ | parent
      · exact ⟨_, rfl⟩
      -- parents come first, so there is a definition for them
      have hbefore := hs.parents hd hp
      have hsize := index_lt_of_definition? hd
      exact ih _ parent _ (Array.getElem?_eq_getElem (by omega)) (by omega)
  exact hwithin _ _ x d hd (index_lt_of_definition? hd)

theorem IsFixed.step {x : DefinitionId} {content : Content} (hf : c.IsFixed x content)
    (h : Step pass c c') : c'.IsFixed x content := by
  obtain ⟨tags, htags, hremap⟩ := hf.remap
  refine ⟨fun t ht => h.settled (hf.targets t ht), tags, h.effectiveTags? htags, ?_⟩
  rw [h.fonts]; exact hremap

/-- What has a text after a step was there before it. -/
theorem Step.of_mem_contents (h : Step pass c c') {x : DefinitionId} {d' : Definition}
    {content : Content} (hd' : c'.definition? x = some d') (hcontent : content ∈ d'.kind.contents) :
    ∃ d, c.definition? x = some d ∧ d.kind.Step pass c x d'.kind := by
  rcases h.definition hd' with ⟨-, -, value, hv⟩ | ⟨d, hd, -, hk⟩
  · rw [hv] at hcontent; cases hcontent
  · exact ⟨d, hd, hk⟩

/-- What is converted after a step is so under the tags in effect. -/
theorem Step.isFixed (h : Step pass c c') (hs : c.IsSound) {x : DefinitionId} {d' : Definition}
    {content' : Content} (hd' : c'.definition? x = some d') (hcontent : content' ∈ d'.kind.contents)
    (hc : content'.IsConverted) : c'.IsFixed x content' := by
  obtain ⟨d, hd, hk⟩ := h.of_mem_contents hd' hcontent
  rcases hk.of_isConverted hcontent hc with hold | ⟨content, hmem, tags, htags, hnew, hsettled, rfl⟩
  · exact (hs.fixed hd content' hold hc).step h
  refine ⟨fun t ht => ?_, tags, h.effectiveTags? htags, ?_⟩
  · rw [Content.targets_resolveFonts] at ht
    exact h.settled (hsettled t (DefinitionKind.mem_targets.2 ⟨content, hmem, ht⟩))
  · rcases content with ⟨source, _ | inlines | inlines⟩
    · obtain ⟨l, hl⟩ := hc; cases hl
    · intro j hj
      obtain ⟨i, -, rfl⟩ := List.mem_map.1 hj
      rw [h.fonts]; exact Inline.remap_remap i
    · exact absurd ⟨inlines, rfl⟩ hnew

/-- **A step leads from a sound context to a sound one.** -/
theorem Step.isSound (h : Step pass c c') (hs : c.IsSound) : c'.IsSound where
  executed hd' content hcontent := by
    obtain ⟨d, hd, hk⟩ := h.of_mem_contents hd' hcontent
    exact hk.executed (hs.executed hd) content hcontent
  targets hd' t ht := by
    obtain ⟨content, hcontent, -⟩ := DefinitionKind.mem_targets.1 ht
    obtain ⟨d, hd, hk⟩ := h.of_mem_contents hd' hcontent
    have hold : c.Resolved t ∧ ¬ c.IsMultilingual t :=
      (hk.mem_targets ht).elim (hs.targets hd t) fun hnew => hnew
    exact ⟨h.resolved hold.1, fun hm => hold.2 (h.isMultilingual hm)⟩
  children hd' y hy hm := by
    rcases h.definition hd' with ⟨-, -, value, hv⟩ | ⟨d, hd, -, hk⟩
    · rw [hv] at hy; cases hy
    · rw [hk.children_eq] at hy
      exact hs.children hd y hy (h.isMultilingual hm)
  fixed hd' _ hcontent hc := h.isFixed hs hd' hcontent hc
  parents hd' hp := by
    rcases h.definition hd' with ⟨-, hnone, -⟩ | ⟨d, hd, hparent, -⟩
    · rw [hnone] at hp; cases hp
    · exact hs.parents hd (hparent ▸ hp)

/-! ## Any number of steps -/

/-- What every step keeps holds after any number of them. -/
theorem Steps.keeps {P : Context → Prop} (hstep : ∀ {c c'}, Step pass c c' → P c → P c')
    (h : Steps pass c c') (hc : P c) : P c' := by
  induction h with
  | refl => exact hc
  | tail _ hs ih => exact hstep hs ih

/-- What every step keeps of a definition holds of it after any number of them. -/
theorem Steps.definition {P : DefinitionKind → Prop} {x : DefinitionId} {d : Definition}
    (hstep : ∀ {c k k'}, DefinitionKind.Step pass c x k k' → P k → P k') (h : Steps pass c c')
    (hd : c.definition? x = some d) (hc : P d.kind) :
    ∃ d', c'.definition? x = some d' ∧ P d'.kind := by
  refine h.keeps (P := fun c => ∃ d, c.definition? x = some d ∧ P d.kind) ?_ ⟨d, hd, hc⟩
  rintro c c' hs ⟨d, hd, hP⟩
  obtain ⟨references, kind, hd', hk⟩ := hs.old hd
  exact ⟨_, hd', hstep hk hP⟩

theorem Steps.isSound (h : Steps pass c c') (hc : c.IsSound) : c'.IsSound :=
  h.keeps (fun hs => hs.isSound) hc

theorem Steps.resolved (h : Steps pass c c') {x : DefinitionId} (hx : c.Resolved x) :
    c'.Resolved x :=
  h.keeps (P := fun c => c.Resolved x) (fun hs => hs.resolved) hx

theorem Steps.settled (h : Steps pass c c') {x : DefinitionId} (hx : c.Settled x) :
    c'.Settled x :=
  h.keeps (P := fun c => c.Settled x) (fun hs => hs.settled) hx

theorem Steps.not_isMultilingual (h : Steps pass c c') {x : DefinitionId}
    (hx : ¬ c.IsMultilingual x) : ¬ c'.IsMultilingual x :=
  h.keeps (P := fun c => ¬ c.IsMultilingual x) (fun hs hc hm => hc (hs.isMultilingual hm)) hx

end Context

end Rubric
