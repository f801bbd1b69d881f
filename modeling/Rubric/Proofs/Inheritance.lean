/-
  Rubric — tags are inherited from parents.

  * `Context.Ancestry`: a definition, its parent, and so on up to one that has none;
  * `Tags.along`: what the definitions of a chain set, each one's own tags before those above it;
    `language_along`, `font_along`: the first that is set counts, for each by itself;
  * `Context.Ancestry.tagsWithin`: the walk along the parents may stop where all is set, and finds
    what the whole chain sets;
  * `Context.ParentsFirst`: parents come before their parts.  Calls keep this, and edits that find
    the parents of what they add (`Context.Reached.parentsFirst`), so that no chain of parents
    goes on without end;
  * **`effectiveTags_along_parents`**: the tags in effect at a definition.
-/
import Rubric.Proofs.Linked

namespace Rubric

open Context

variable {c c' : Context} {id x p : DefinitionId} {d : Definition} {chain : List Definition}

/-! ## Tags of a chain -/

namespace Tags

@[simp] theorem inherit_unset (t : Tags) : t.inherit unset = t := by
  rcases t with ⟨_ | _, _ | _ | _⟩ <;> rfl

theorem inherit_assoc (t u v : Tags) : (t.inherit u).inherit v = t.inherit (u.inherit v) := by
  rcases t with ⟨_ | _, _ | _ | _⟩ <;> rfl

/-- Where all is set, nothing is inherited. -/
theorem inherit_of_isComplete {t : Tags} (h : t.isComplete) (u : Tags) : t.inherit u = t := by
  rcases t with ⟨_ | _, _ | _ | _⟩
  case some.named | some.cleared => rfl
  all_goals simp [isComplete] at h

/-- The tags that the definitions of a chain set, the nearest first. -/
def along (chain : List Definition) : Tags :=
  chain.foldr (fun d tags => d.ownTags.inherit tags) unset

theorem language_along (chain : List Definition) :
    (along chain).language = chain.findSome? Definition.language := by
  induction chain with
  | nil => rfl
  | cons d chain ih =>
    have hnext : (along (d :: chain)).language = d.language.or (along chain).language := rfl
    rw [hnext, ih, List.findSome?_cons]
    cases d.language <;> rfl

theorem font_along (chain : List Definition) :
    (along chain).font = ((chain.findSome? Definition.font).map .named).getD .inherit := by
  induction chain with
  | nil => rfl
  | cons d chain ih =>
    rw [List.findSome?_cons]
    rcases hfont : d.font with _ | font
    · rw [← ih]
      simp [along, inherit, Definition.ownTags, hfont]
    · simp [along, inherit, Definition.ownTags, hfont]

end Tags

/-! ## Chains of parents -/

namespace Context

/-- The definition of a number, its parent, and so on up to one without a parent. -/
inductive Ancestry (c : Context) : DefinitionId → List Definition → Prop
  | root {x : DefinitionId} {d : Definition} :
      c.definition? x = some d → d.parent = none → Ancestry c x [d]
  | part {x p : DefinitionId} {d : Definition} {chain : List Definition} :
      c.definition? x = some d → d.parent = some p → Ancestry c p chain → Ancestry c x (d :: chain)

/-- **The walk finds what the chain sets**, if it may go on to its end: where it stops before that,
    the rest would have changed nothing. -/
theorem Ancestry.tagsWithin (h : c.Ancestry x chain) {n : Nat} (hn : chain.length ≤ n)
    (found : Tags) : c.tagsWithin n found x = some (found.inherit (.along chain)) := by
  induction h generalizing n found with
  | @root x d hd hparent =>
    obtain ⟨n, rfl⟩ := Nat.exists_eq_succ_of_ne_zero (Nat.ne_of_gt hn)
    have hown : Tags.along [d] = d.ownTags := Tags.inherit_unset _
    simp [Context.tagsWithin, hd, hparent, hown]
  | @part x p d chain hd hparent _ ih =>
    obtain ⟨n, rfl⟩ := Nat.exists_eq_succ_of_ne_zero (Nat.ne_of_gt (Nat.lt_of_lt_of_le
      (Nat.succ_pos _) hn))
    have hnext : found.inherit (.along (d :: chain)) =
        (found.inherit d.ownTags).inherit (.along chain) :=
      (Tags.inherit_assoc _ _ _).symm
    rw [Context.tagsWithin, hd, hnext]
    dsimp only [Option.bind_eq_bind, Option.bind_some]
    split
    · rename_i hcomplete
      rw [Tags.inherit_of_isComplete hcomplete]
      rfl
    · rw [hparent]
      exact ih (Nat.le_of_succ_le_succ hn) _

/-! ## Parents come first -/

/-- Parents come before their parts. -/
def ParentsFirst (c : Context) : Prop :=
  ∀ x d p, c.definition? x = some d → d.parent = some p → p.index < x.index

/-- Then the chain of parents of every definition has an end. -/
theorem ParentsFirst.exists_ancestry (h : c.ParentsFirst) (hx : c.Has x) :
    ∃ chain, c.Ancestry x chain := by
  rcases x with ⟨i⟩
  induction i using Nat.strong_induction_on with
  | _ i ih =>
    obtain ⟨d, hd⟩ := has_iff.1 hx
    rcases hparent : d.parent with _ | p
    · exact ⟨[d], .root hd hparent⟩
    · have hp : p.index < i := h _ d p hd hparent
      obtain ⟨chain, hchain⟩ := ih p.index hp (Nat.lt_trans hp hx)
      exact ⟨d :: chain, .part hd hparent hchain⟩

/-- Such a chain is no longer than the definitions up to its first are many. -/
theorem Ancestry.length_le (h : c.Ancestry x chain) (hfirst : c.ParentsFirst) :
    chain.length ≤ x.index + 1 := by
  induction h with
  | root => exact Nat.le_add_left 1 _
  | part hd hparent _ ih => exact Nat.succ_le_succ (Nat.le_trans ih (hfirst _ _ _ hd hparent))

/-- Every definition is under the parent that it was under before, or under none. -/
def KeepsParents (c c' : Context) : Prop :=
  ∀ x d', c'.definition? x = some d' →
    (∃ d, c.definition? x = some d ∧ d'.parent = d.parent) ∨ d'.parent = none

theorem composes_keepsParents : Engine.Composes KeepsParents where
  refl _ _ d hd := Or.inl ⟨d, hd, rfl⟩
  trans h h' x d₂ hd₂ := by
    rcases h' x d₂ hd₂ with ⟨d₁, hd₁, hsame⟩ | hnone
    · rcases h x d₁ hd₁ with ⟨d, hd, hsame'⟩ | hnone
      · exact Or.inl ⟨d, hd, hsame.trans hsame'⟩
      · exact Or.inr (hsame.trans hnone)
    · exact Or.inr hnone

theorem ParentsFirst.of_keepsParents (hc : c.ParentsFirst) (h : KeepsParents c c') :
    c'.ParentsFirst := by
  intro x d' p hd' hp
  rcases h x d' hd' with ⟨d, hd, hsame⟩ | hnone
  · exact hc x d p hd (hsame.symm.trans hp)
  · rw [hnone] at hp
    cases hp

namespace KeepsParents

theorem of_definitions (h : c'.definitions = c.definitions) : KeepsParents c c' := by
  intro x d hd
  rw [definition?_of_definitions_eq h] at hd
  exact Or.inl ⟨d, hd, rfl⟩

theorem modifyDefinition (c : Context) {f : Definition → Definition}
    (hf : ∀ d, (f d).parent = d.parent) : KeepsParents c (c.modifyDefinition id f) := by
  intro x d' hd'
  rcases of_definition?_modifyDefinition hd' with ⟨-, hd'⟩ | ⟨rfl, d, hd, rfl⟩
  · exact Or.inl ⟨d', hd', rfl⟩
  · exact Or.inl ⟨d, hd, hf d⟩

theorem setSourceText (c : Context) (id : DefinitionId) (source : String) :
    KeepsParents c (c.setSourceText id source) := by
  unfold Context.setSourceText
  split
  case h_4 => exact .of_definitions rfl
  case h_5 => exact composes_keepsParents.refl c
  all_goals exact .modifyDefinition c fun _ => rfl

/-- New definitions are truth values, which are under no parent. -/
theorem of_extends (h : Extends c c') : KeepsParents c c' := by
  intro x d' hd'
  rcases hd : c.definition? x with _ | d
  · obtain ⟨value, references, rfl⟩ := h.new hd hd'
    exact Or.inr rfl
  · obtain ⟨references, kind, hold, -, -⟩ := h.old hd
    cases hd'.symm.trans hold
    exact Or.inl ⟨d, rfl, rfl⟩

theorem of_converts (h : Converts c c') : KeepsParents c c' := by
  intro x d' hd'
  obtain ⟨d, kind, hd, rfl, -⟩ := h.of_definition? hd'
  exact Or.inl ⟨d, hd, rfl⟩

end KeepsParents

/-- A definition of any kind is put under a parent that exists. -/
theorem ParentsFirst.addDefinition (h : c.ParentsFirst)
    (hparent : ∀ p ∈ d.parent, (c.definition? p).isSome) (document : Option DocumentId) :
    (c.addDefinition d document).2.ParentsFirst := by
  intro x d' p hd' hp
  rcases of_definition?_addDefinition hd' with hd' | ⟨hx, rfl⟩
  · exact h x d' p hd' hp
  · exact hx ▸ has_iff.2 (Option.isSome_iff_exists.1 (hparent p hp))

/-- A part is added under a parent that exists. -/
theorem ParentsFirst.addChild (h : c.ParentsFirst) {parent : DefinitionId}
    (hparent : (c.definition? parent).isSome) (key : Option String) (kind : DefinitionKind) :
    (c.addChild parent key kind).2.ParentsFirst := by
  unfold Context.addChild
  dsimp only
  have hadd := h.addDefinition (d := { key, parent := some parent, kind })
    (by rintro p ⟨⟩; exact hparent) ((c.definition? parent).bind Definition.document)
  split
  · exact hadd.of_keepsParents (.modifyDefinition _ fun _ => rfl)
  · exact hadd.of_keepsParents (.of_definitions rfl)
  · exact hadd

end Context

/-- After an edit parents still come first. -/
theorem Edit.parentsFirst {e : Edit} (he : e.FindsParent c) (h : c.ParentsFirst) :
    (e.apply c).ParentsFirst := by
  cases e with
  | addSection parent key | addStanza parent key | addParagraph parent key
  | addPartReference parent key => exact h.addChild (he parent rfl) key _
  | addDefinition d document => exact h.addDefinition he document
  | addVersion document language font =>
    have hadd := h.addDefinition (d := { language := some language, font, kind := .section {} })
      (by rintro p ⟨⟩) (some document)
    exact hadd.of_keepsParents (.of_definitions rfl)
  | setSourceText id source => exact h.of_keepsParents (.setSourceText c id source)
  | setLanguage | setFont | addReference =>
    exact h.of_keepsParents (.modifyDefinition c fun _ => rfl)
  | addDocument | setAuthor | setCommands | setFonts | registerAnalyzer | setSettings =>
    exact h.of_keepsParents (.of_definitions rfl)

/-- A call leaves parents as they are, however it ends. -/
theorem Call.Ends.keepsParents {call : Call} {r : Except Error Unit} (h : call.Ends c r c') :
    KeepsParents c c' :=
  h.moves composes_keepsParents
    (fun n id _ _ _ h => .of_extends (extends_handleCommands n id _ _ _ h))
    fun n id _ _ _ h => .of_converts (converts_handleFonts n id _ _ _ h)

/-! ## Tags in effect -/

namespace Context

/-- Parents come first in every context that edits and calls lead to, if the edits find the parents
    of what they add. -/
theorem Reached.parentsFirst {P : Context → Call → Except Error Unit → Prop}
    (h : c.Reached Edit.FindsParent P) : c.ParentsFirst := by
  induction h with
  | new settings => rintro x d p ⟨⟩
  | edit _ he ih => exact Edit.parentsFirst he ih
  | call _ _ hends ih => exact ih.of_keepsParents hends.keepsParents

/-- What the chain sets is in effect at its first definition. -/
theorem Ancestry.effectiveTags? (h : c.Ancestry x chain) (hfirst : c.ParentsFirst) :
    c.effectiveTags? x = some (.along chain) := by
  have hx : c.Has x := by
    cases h with
    | root hd | part hd => exact has_iff.2 ⟨_, hd⟩
  have hlength : chain.length ≤ c.definitions.size := Nat.le_trans (h.length_le hfirst) hx
  rw [Context.effectiveTags?, h.tagsWithin hlength, Tags.unset_inherit]

end Context

/-- **Tags are inherited along the parents.**  In every context that edits and calls lead to, in any
    order, the walk along the parents ends, at every definition.  It finds the definition's own
    tags, and for what they leave open the tags in effect at its parent; so the language is the
    nearest one that is set on the way up, and the font is, wherever the other one comes from.
    Definitions that are made by hand may be of any kind, copies of others too, if there is a
    definition for the parent given to them. -/
theorem effectiveTags_along_parents (h : c.ReachedBy Edit.FindsParent)
    (hd : c.definition? id = some d) :
    (d.parent = none → c.effectiveTags? id = some d.ownTags) ∧
    (∀ p, d.parent = some p → ∃ tags, c.effectiveTags? p = some tags ∧
      c.effectiveTags? id = some (d.ownTags.inherit tags)) ∧
    ∃ chain, c.Ancestry id chain ∧ chain.length ≤ id.index + 1 ∧
      c.effectiveTags? id =
        some (chain.foldr (fun d tags => d.ownTags.inherit tags) .unset) ∧
      c.effectiveTags? id = some {
        language := chain.findSome? Definition.language
        font := ((chain.findSome? Definition.font).map .named).getD .inherit } := by
  have hfirst : c.ParentsFirst := Reached.parentsFirst h
  obtain ⟨chain, hchain⟩ := hfirst.exists_ancestry (has_iff.2 ⟨d, hd⟩)
  have htags : c.effectiveTags? id = some (.along chain) := hchain.effectiveTags? hfirst
  refine ⟨fun hroot => ?_, fun p hp => ?_, chain, hchain, hchain.length_le hfirst, htags, ?_⟩
  · rw [(Ancestry.root hd hroot).effectiveTags? hfirst]
    exact congrArg some (Tags.inherit_unset _)
  · cases hchain with
    | root hd' hroot =>
      cases hd.symm.trans hd'
      cases hroot.symm.trans hp
    | @part _ _ _ chain hd' hp' hchain =>
      cases hd.symm.trans hd'
      cases hp.symm.trans hp'
      exact ⟨.along chain, hchain.effectiveTags? hfirst, htags⟩
  · rw [htags, ← Tags.language_along, ← Tags.font_along]

/-- A part made by hand, with a reference already, is put under a stanza and resolved; then the
    section around gets another language.  Its language is that of the section, and its font that
    of the version. -/
theorem effectiveTags_of_section_and_version :
    ∃ (c : Context) (chain : List Definition), c.ReachedBy Edit.FindsParent ∧
      c.Ancestry ⟨3⟩ chain ∧ chain.length ≤ 4 ∧
      c.effectiveTags? ⟨3⟩ = some {
        language := chain.findSome? Definition.language
        font := ((chain.findSome? Definition.font).map .named).getD .inherit } ∧
      c.effectiveTags? ⟨3⟩ = some {
        language := some (.ofKnown .greek), font := .named "CS Avva Shenouda" } := by
  let made : Definition :=
    { parent := some ⟨2⟩, references := [⟨0⟩], kind := .paragraph (.ofSource "b") }
  let edits := [Edit.addDocument "d" "D",
    .addVersion ⟨0⟩ (.ofKnown .coptic) (some "CS Avva Shenouda"),
    .addSection ⟨0⟩ none none, .addStanza ⟨1⟩ none "a", .addDefinition made (some ⟨0⟩)]
  let c₂ := (Call.commands ⟨3⟩).run 2 (edits.foldl Edit.apply (.new {}))
  let c := (Edit.setLanguage ⟨1⟩ (.ofKnown .greek)).apply c₂
  have hedits : (edits.foldl Edit.apply (.new {})).ReachedBy Edit.FindsParent :=
    (Reached.new {}).edits (by decide +kernel)
  have hcall : c₂.ReachedBy Edit.FindsParent :=
    .call hedits trivial (Call.ends_run (by decide +kernel))
  have hc : c.ReachedBy Edit.FindsParent := .edit hcall (by decide +kernel)
  obtain ⟨d, hd⟩ := Option.isSome_iff_exists.1
    (show (c.definition? ⟨3⟩).isSome by decide +kernel)
  obtain ⟨-, -, chain, hchain, hlength, -, htags⟩ := effectiveTags_along_parents hc hd
  exact ⟨c, chain, hc, hchain, hlength, htags, by decide +kernel⟩

end Rubric
