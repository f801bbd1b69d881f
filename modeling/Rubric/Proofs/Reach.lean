/-
  Rubric — what a definition leads to.

  * `Context.Reaches`: from a definition along its parts, the target of a part
    reference, and the definitions that commands in its texts stand for;
  * `Context.Resolved`: everywhere on the way all commands are handled.
    Definitions may lead back to themselves, so this is shown by a set that
    holds whatever its members lead to: `resolved_of_closed`;
  * `Context.Settled`: everywhere on the way all fonts are converted, and every
    way ends; `Settled.reaches`.
-/
import Mathlib.Logic.Relation
import Rubric.Proofs.Node
import Rubric.Proofs.Remap

namespace Rubric

/-! ## Links -/

namespace DefinitionKind

/-- The definitions that commands in the texts of a definition stand for. -/
def targets (kind : DefinitionKind) : List DefinitionId :=
  Inline.targets (kind.contents.flatMap Content.inlines)

/-- The definitions that a definition leads to. -/
def links (kind : DefinitionKind) : List DefinitionId :=
  kind.targets ++ (kind.children ++ kind.target?.toList)

/-- A part reference has a target. -/
def IsAimed (kind : DefinitionKind) : Prop :=
  ∀ reference, kind = .partReference reference → reference.target.isSome

/-- All commands in the texts of a definition are handled. -/
structure IsResolved (kind : DefinitionKind) : Prop where
  handled : ∀ content ∈ kind.contents, content.IsHandled
  executed : ∀ content ∈ kind.contents, ∀ i ∈ content.inlines, i.IsExecuted
  aimed : kind.IsAimed

/-- All fonts in the texts of a definition are converted. -/
structure IsConverted (kind : DefinitionKind) : Prop where
  contents : ∀ content ∈ kind.contents, content.IsConverted
  aimed : kind.IsAimed

theorem mem_targets {kind : DefinitionKind} {t : DefinitionId} :
    t ∈ kind.targets ↔ ∃ content ∈ kind.contents, t ∈ Inline.targets content.inlines := by
  simp only [targets, Inline.mem_targets, Inline.mem_nestedList, List.mem_flatMap]
  constructor
  · rintro ⟨j, ⟨i, ⟨content, hc, hi⟩, hj⟩, ht⟩; exact ⟨content, hc, j, ⟨i, hi, hj⟩, ht⟩
  · rintro ⟨content, hc, j, ⟨i, hi, hj⟩, ht⟩; exact ⟨j, ⟨i, ⟨content, hc, hi⟩, hj⟩, ht⟩

theorem mem_links {kind : DefinitionKind} {y : DefinitionId} :
    y ∈ kind.links ↔ y ∈ kind.targets ∨ y ∈ kind.children ∨ kind.target? = some y := by
  simp [links]

theorem mem_links_of_text {kind : DefinitionKind} {content : Content} {t : DefinitionId}
    (hmem : content ∈ kind.contents) (ht : t ∈ Inline.targets content.inlines) :
    t ∈ kind.links :=
  mem_links.2 (Or.inl (mem_targets.2 ⟨content, hmem, ht⟩))

theorem mem_links_of_child {kind : DefinitionKind} {y : DefinitionId} (hy : y ∈ kind.children) :
    y ∈ kind.links :=
  mem_links.2 (Or.inr (Or.inl hy))

theorem mem_links_of_target {kind : DefinitionKind} {t : DefinitionId}
    (ht : kind.target? = some t) : t ∈ kind.links :=
  mem_links.2 (Or.inr (Or.inr ht))

/-- Only texts lead to what commands stand for. -/
theorem targets_eq_nil {kind : DefinitionKind} (h : kind.contents = []) : kind.targets = [] := by
  rw [targets, h]; rfl

end DefinitionKind

theorem Content.targets_of_unparsed {content : Content} (h : content.stage = .unparsed) :
    Inline.targets content.inlines = [] := by
  rw [inlines, h]; exact Inline.targets_run _ _

theorem Content.isExecuted_of_unparsed {content : Content} (h : content.stage = .unparsed) :
    ∀ i ∈ content.inlines, i.IsExecuted := by
  rw [inlines, h]
  intro i hi
  rw [List.mem_singleton.1 hi]; exact Inline.isExecuted_run _ _

namespace Context

variable {c c' : Context} {id x y : DefinitionId}

/-- The first definition leads to the second. -/
def Links (c : Context) (x y : DefinitionId) : Prop :=
  ∃ d, c.definition? x = some d ∧ y ∈ d.kind.links

theorem links_of_mem (h : y ∈ ((c.definition? x).map fun d => d.kind.links).getD []) :
    c.Links x y := by
  rcases hd : c.definition? x with _ | d
  · rw [hd] at h; cases h
  · rw [hd] at h; exact ⟨d, hd, h⟩

/-- The first definition leads to the second over any number of others. -/
def Reaches (c : Context) : DefinitionId → DefinitionId → Prop :=
  Relation.ReflTransGen c.Links

/-! ## Handled commands -/

/-- Wherever the definition leads, all commands are handled. -/
def Resolved (c : Context) (id : DefinitionId) : Prop :=
  ∀ x, c.Reaches id x → ∃ d, c.definition? x = some d ∧ d.kind.IsResolved

/-- Whatever the members of a set lead to is in the set. -/
theorem resolved_of_closed {S : DefinitionId → Prop}
    (hS : ∀ x, S x → ∃ d, c.definition? x = some d ∧ d.kind.IsResolved ∧ ∀ y ∈ d.kind.links, S y)
    (h : S id) : c.Resolved id := by
  intro x hx
  have hmem : S x := by
    induction hx with
    | refl => exact h
    | tail _ hlink ih =>
      obtain ⟨d, hd, hy⟩ := hlink
      obtain ⟨d', hd', -, hlinks⟩ := hS _ ih
      rw [Option.some.inj (hd.symm.trans hd')] at hy
      exact hlinks _ hy
  obtain ⟨d, hd, hr, -⟩ := hS x hmem
  exact ⟨d, hd, hr⟩

/-- A definition is resolved if it is and all that it leads to. -/
theorem resolved_iff : c.Resolved id ↔
    ∃ d, c.definition? id = some d ∧ d.kind.IsResolved ∧ ∀ y ∈ d.kind.links, c.Resolved y := by
  constructor
  · intro h
    obtain ⟨d, hd, hr⟩ := h id .refl
    exact ⟨d, hd, hr, fun y hy x hx => h x (.head ⟨d, hd, hy⟩ hx)⟩
  · rintro ⟨d, hd, hr, hlinks⟩ x hx
    rcases Relation.ReflTransGen.cases_head hx with rfl | ⟨y, ⟨d', hd', hy⟩, hyx⟩
    · exact ⟨d, hd, hr⟩
    · rw [Option.some.inj (hd'.symm.trans hd)] at hy
      exact hlinks y hy x hyx

/-- What is resolved stays so if each resolved definition stays so and leads to resolved ones. -/
theorem Resolved.of_links (h : c.Resolved id)
    (hstep : ∀ x d, c.Resolved x → c.definition? x = some d → d.kind.IsResolved →
      (∀ y ∈ d.kind.links, c.Resolved y) →
        ∃ d', c'.definition? x = some d' ∧ d'.kind.IsResolved ∧ ∀ y ∈ d'.kind.links, c.Resolved y) :
    c'.Resolved id := by
  refine resolved_of_closed (S := c.Resolved) ?_ h
  intro x hx
  obtain ⟨d, hd, hr, hlinks⟩ := resolved_iff.1 hx
  exact hstep x d hx hd hr hlinks

/-! ## Converted fonts -/

/-- All ways from the definition end, and wherever they lead all fonts are converted. -/
inductive Settled (c : Context) : DefinitionId → Prop
  | intro {id : DefinitionId} {d : Definition} : c.definition? id = some d → d.kind.IsConverted →
      (∀ y ∈ d.kind.links, Settled c y) → Settled c id

theorem Settled.reaches (h : c.Settled id) (hx : c.Reaches id x) : c.Settled x := by
  induction hx with
  | refl => exact h
  | tail _ hlink ih =>
    obtain ⟨d, hd, hy⟩ := hlink
    obtain ⟨hd', -, hlinks⟩ := ih
    rw [Option.some.inj (hd.symm.trans hd')] at hy
    exact hlinks _ hy

theorem Settled.definition (h : c.Settled id) :
    ∃ d, c.definition? id = some d ∧ d.kind.IsConverted := by
  obtain ⟨hd, hc, -⟩ := h
  exact ⟨_, hd, hc⟩

/-- What is settled stays so if no settled definition changes its kind. -/
theorem Settled.of_kind_eq (h : c.Settled id)
    (hstep : ∀ x d, c.definition? x = some d → d.kind.IsConverted →
      ∃ d', c'.definition? x = some d' ∧ d'.kind = d.kind) : c'.Settled id := by
  induction h with
  | @intro id d hd hc _ ih =>
    obtain ⟨d', hd', hk⟩ := hstep id d hd hc
    exact .intro hd' (hk ▸ hc) (hk ▸ ih)

end Context

end Rubric
