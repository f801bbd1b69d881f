/-
  Rubric — what the font pass leaves as it is.

  * `DefinitionKind.Converts fonts effective`: the handled texts of a definition
    are converted under the tags in effect, or nothing changes;
  * `Context.Converts c c'`: besides this, footnotes have other bodies and there
    are more warnings;
  * **`converts_handleFonts`**: the font pass of a definition does no more than
    this, whether it ends with a value or an error.
-/
import Rubric.Proofs.Numbering
import Rubric.Proofs.Unresolved

namespace Rubric

open Context

variable {c c' c₁ c₂ : Context} {id x : DefinitionId}

/-! ## Conversions -/

/-- The handled texts of a definition are converted under the tags in effect, or they stay. -/
inductive DefinitionKind.Converts (fonts : FontRegistry) (effective : Option Tags) :
    DefinitionKind → DefinitionKind → Prop
  | same (kind : DefinitionKind) : Converts fonts effective kind kind
  | fonts {kind : DefinitionKind} {tags : Tags} : effective = some tags →
      Converts fonts effective kind
        (kind.mapContents fun content => content.resolveFonts (Inline.remap fonts tags))

theorem Content.source_resolveFonts (content : Content) (f : Inline → Inline) :
    (content.resolveFonts f).source = content.source := by
  rcases content with ⟨source, _ | inlines | inlines⟩ <;> rfl

namespace DefinitionKind.Converts

variable {fonts : FontRegistry} {effective : Option Tags} {k k₁ k₂ : DefinitionKind}

/-- What was converted under the tags in effect is as good as new for another conversion. -/
theorem again {tags : Tags} (h : k.Converts fonts effective k₁) (htags : effective = some tags) :
    k₁.mapContents (fun content => content.resolveFonts (Inline.remap fonts tags)) =
      k.mapContents fun content => content.resolveFonts (Inline.remap fonts tags) := by
  cases h with
  | same => rfl
  | fonts htags' =>
    cases htags.symm.trans htags'
    simp only [mapContents_mapContents, Content.resolveFonts_resolveFonts]

/-- What is converted twice under the same tags is converted once. -/
theorem trans (h : k.Converts fonts effective k₁) (h' : k₁.Converts fonts effective k₂) :
    k.Converts fonts effective k₂ := by
  cases h' with
  | same => exact h
  | fonts htags =>
    rw [h.again htags]
    exact .fonts htags

end DefinitionKind.Converts

namespace Context

theorem effectiveTags?_atDepth (c : Context) (depth : Nat) (x : DefinitionId) :
    (c.atDepth depth).effectiveTags? x = c.effectiveTags? x :=
  effectiveTags?_of_unresolved_eq (unresolved_of_core_eq (c.core_atDepth depth)) x

/-- The second context is the first one, except that texts are converted, footnotes have other
    bodies, and warnings were given. -/
structure Converts (c c' : Context) : Prop where
  written : c'.unresolved = c.unresolved
  depth : c'.depth = c.depth
  drawn : ∀ d, c'.drawn d = c.drawn d
  numbers : ∀ d, c'.numbers d = c.numbers d
  definition : ∀ {x d}, c.definition? x = some d → ∃ kind,
    c'.definition? x = some { d with kind } ∧ d.kind.Converts c.fonts (c.effectiveTags? x) kind

namespace Converts

theorem refl (c : Context) : Converts c c where
  written := rfl
  depth := rfl
  drawn _ := rfl
  numbers _ := rfl
  definition {_ d} hd := ⟨d.kind, hd, .same _⟩

theorem fonts_eq (h : Converts c c') : c'.fonts = c.fonts :=
  show c'.unresolved.fonts = c.unresolved.fonts by rw [h.written]

theorem effectiveTags? (h : Converts c c') (x : DefinitionId) :
    c'.effectiveTags? x = c.effectiveTags? x :=
  effectiveTags?_of_unresolved_eq h.written x

theorem trans (h : Converts c c₁) (h' : Converts c₁ c₂) : Converts c c₂ where
  written := h'.written.trans h.written
  depth := h'.depth.trans h.depth
  drawn d := (h'.drawn d).trans (h.drawn d)
  numbers d := (h'.numbers d).trans (h.numbers d)
  definition {x d} hd := by
    obtain ⟨kind₁, hd₁, hk₁⟩ := h.definition hd
    obtain ⟨kind₂, hd₂, hk₂⟩ := h'.definition hd₁
    rw [h.fonts_eq, h.effectiveTags? x] at hk₂
    exact ⟨kind₂, hd₂, hk₁.trans hk₂⟩

/-- It makes no difference how many passes are under way. -/
theorem atDepth (h : Converts c c') (depth : Nat) :
    Converts (c.atDepth depth) (c'.atDepth depth) where
  written := h.written
  depth := rfl
  drawn := h.drawn
  numbers := h.numbers
  definition {x _} hd := by
    rw [c.effectiveTags?_atDepth depth x]
    exact h.definition hd

/-- A pass one level deeper, seen from the level it began at. -/
theorem leave (h : Converts (c.atDepth (c.depth + 1)) c₁) :
    Converts c (c₁.atDepth (c₁.depth - 1)) := by
  have hdepth : c₁.depth = c.depth + 1 := h.depth
  rw [hdepth]
  exact h.atDepth c.depth

/-- What a definition was before. -/
theorem of_definition? (h : Converts c c') {d' : Definition} (hd' : c'.definition? x = some d') :
    ∃ d kind, c.definition? x = some d ∧ d' = { d with kind } ∧
      d.kind.Converts c.fonts (c.effectiveTags? x) kind := by
  obtain ⟨d, hd, -⟩ := definition?_of_unresolved_eq h.written hd'
  obtain ⟨kind, hd'', hk⟩ := h.definition hd
  exact ⟨d, kind, hd, Option.some.inj (hd'.symm.trans hd''), hk⟩

end Converts

theorem composes_converts : Engine.Composes Converts where
  refl := .refl
  trans h h' := h.trans h'

end Context

/-- Converting a text changes no more than that text and footnotes. -/
theorem converts_convertContent {l : List Inline} {r : Except Error Unit}
    (h : (Engine.convertContent id l).Gives c r c') : Converts c c' := by
  obtain ⟨tags, d, warnings, htags, -, -, rfl⟩ := Engine.gives_convertContent h
  constructor
  · refine (unresolved_of_core_eq (core_modifyFootnotes _ _ _)).trans ?_
    refine (unresolved_modifyKind (DefinitionKind.unresolved_mapContents fun content =>
      content.source_resolveFonts _)).trans ?_
    exact unresolved_of_core_eq (c.core_warnAll warnings)
  · exact depth_modifyFootnotes _ _ _
  · intro document
    rw [drawn_rerouteFootnotes]
    cases document <;> rfl
  · intro document
    rw [numbers_rerouteFootnotes]
    cases document <;> rfl
  · intro x dx hx
    rw [rerouteFootnotes, definition?_modifyFootnotes, definition?_modifyDefinition]
    by_cases he : id = x
    · subst he
      exact ⟨_, by rw [if_pos rfl]; exact congrArg _ hx, .fonts htags⟩
    · exact ⟨dx.kind, by rw [if_neg he]; exact hx, .same _⟩

/-- The font pass of a text leaves everything else as it is, if the passes of the definitions that
    its commands stand for do. -/
theorem converts_convert {targets : List DefinitionId → Engine Unit} {d : Definition}
    {content : Content} {r : Except Error Unit} (ht : ∀ ids, (targets ids).Moves Converts)
    (hd : c.definition? id = some d) (hmem : content ∈ d.kind.contents)
    (h : (Engine.convert targets id content).Gives c r c') : Converts c c' :=
  Engine.rel_of_convert composes_converts
    (fun _ _ _ h hconvert => h.trans (converts_convertContent hconvert)) ht hd hmem h

/-- The font pass of a definition leaves everything else as it is, if the passes of others do. -/
theorem converts_fontPass {handle : DefinitionId → Engine Unit}
    (hh : ∀ id, (handle id).Moves Converts) (id : DefinitionId) :
    (Engine.fontPass handle id).Moves Converts :=
  Engine.fontPass_moves composes_converts hh
    (fun _ _ _ h hconvert => h.trans (converts_convertContent hconvert)) id

/-- **The font pass leaves everything else as it is**, however it ends. -/
theorem converts_handleFonts (n : Nat) (id : DefinitionId) :
    (Engine.handleFonts n id).Moves Converts :=
  Engine.handleFonts_moves composes_converts (fun h => h.leave)
    (fun _ _ _ h hconvert => h.trans (converts_convertContent hconvert)) n id

end Rubric
