/-
  Rubric — what commands render, and when that comes to an end.

  Rendering goes from a definition to those that it shows, and no depth limit
  keeps it from going in a circle.  What a pass may render, and whether that
  may become circular, can be told from the context that the pass starts from.

  * `Inline.Renders`, `Context.MayRender`: what commands read as they render;
  * `Context.IsCircular`: a definition that may show in its own text;
  * `Context.Exposes`, `Context.Exposed`: what may come to show in a definition,
    and contexts in which nothing else does;
  * **`exposed_handleCommands`**: the command pass keeps this;
  * **`Exposed.segments?`**: what is not circular has a text then.
-/
import Mathlib.Data.Fintype.EquivFin
import Rubric.Proofs.Foresight
import Rubric.Proofs.Frame
import Rubric.Proofs.Linked

namespace Rubric

open Context

/-! ## What commands render -/

/-- The parameters whose texts a command reads, be it in Unicode or as they are. -/
def CommandKind.rendered : CommandKind → List Inline → List Inline
  | .ipaTranscribe, parameters | .transliterate, parameters => parameters
  | kind, parameters => kind.plain parameters

/-- The definition under the key may show in what a command of the inline renders. -/
def Inline.Renders (i : Inline) (key : String) : Prop :=
  i.Has fun kind parameters =>
    (∃ p ∈ kind.rendered parameters, p.Shows key) ∨
      kind = .lines ∧ key = Invocation.separatorKey

/-- What is read as it is, is rendered. -/
theorem CommandKind.plain_subset_rendered (kind : CommandKind) (parameters : List Inline) :
    kind.plain parameters ⊆ kind.rendered parameters := by
  cases kind with
  | transliterate =>
    rcases parameters with _ | ⟨a, _ | ⟨b, _ | ⟨d, _ | _⟩⟩⟩ <;> simp [plain, rendered]
  | ipaTranscribe => simp [plain]
  | _ => exact fun _ h => h

/-- The parameters that are rendered stand in the same places before and after execution. -/
theorem CommandKind.forall₂_rendered {R : Inline → Inline → Prop} {ps ps' : List Inline}
    (h : List.Forall₂ R ps ps') (kind : CommandKind) :
    List.Forall₂ R (kind.rendered ps) (kind.rendered ps') := by
  cases kind with
  | definition | abbreviation | ipaTranscribe | transliterate => exact h
  | ternary => exact forall₂_plain h .ternary
  | language => exact forall₂_plain h .language
  | lines => exact forall₂_plain h .lines
  | boolean | footnote => exact .nil

theorem CommandKind.rendered_subset (kind : CommandKind) (ps : List Inline) :
    kind.rendered ps ⊆ ps := by
  have hplain := kind.plain_subset ps
  cases kind with
  | ipaTranscribe | transliterate => exact List.Subset.refl ps
  | _ => exact hplain

theorem Inline.Reads.renders {i : Inline} {key : String} (h : i.Reads key) : i.Renders key := by
  obtain ⟨name, kind, parameters, own, hmem, p, hp, hshows⟩ := h
  exact ⟨name, kind, parameters, own, hmem,
    Or.inl ⟨p, kind.plain_subset_rendered parameters hp, hshows⟩⟩

variable {c₀ c c' c₁ : Context} {id x y z : DefinitionId}

namespace Context

/-- In the course of the command pass of `x`, a command may render a text in which that of `y`
    shows. -/
def MayRender (c : Context) (x y : DefinitionId) : Prop :=
  ∃ v z, Relation.ReflTransGen c.MayHandle x v ∧ c.Mentions Inline.Renders v z ∧
    Relation.ReflTransGen c.MayShow z y

/-- The text of the definition may show in itself. -/
def IsCircular (c : Context) (x : DefinitionId) : Prop :=
  Relation.TransGen c.MayShow x x

/-- The definition is a truth value, or is yet to be made. -/
def IsBare (c : Context) (x : DefinitionId) : Prop :=
  (∃ d value, c.definition? x = some d ∧ d.kind = .boolean value) ∨
    c.definitions.size ≤ x.index

/-- The text of `y` may come to show in that of `x`. -/
def Exposes (c : Context) (x y : DefinitionId) : Prop :=
  Relation.TransGen c.MayShow x y ∨ c.IsBare y

theorem Mentions.mono {names names' : Inline → String → Prop}
    (hnames : ∀ {i key}, names i key → names' i key) (h : c.Mentions names x y) :
    c.Mentions names' x y := by
  obtain ⟨d, content, l, i, key, hd, hcontent, hunparsed, hl, hi, hkey, hy⟩ := h
  exact ⟨d, content, l, i, key, hd, hcontent, hunparsed, hl, hi, hnames hkey, hy⟩

theorem IsBare.not_mayShow (h : c.IsBare x) : ¬ c.MayShow x y := by
  rcases h with ⟨d, value, hd, hk⟩ | hnew
  · refine not_mayShow_of_value hd ?_ ?_ ?_ <;> rw [hk]
    · rfl
    · rfl
    · rintro _ ⟨⟩
  · exact Context.not_mayShow (Array.getElem?_eq_none hnew)

theorem IsBare.not_isCircular (h : c.IsBare x) : ¬ c.IsCircular x := by
  intro hcircular
  obtain ⟨_, hmay, -⟩ := Relation.TransGen.head'_iff.1 hcircular
  exact h.not_mayShow hmay

theorem Exposes.trans (h : c.Exposes x y) (h' : c.Exposes y z) : c.Exposes x z := by
  rcases h with h | hbare
  · rcases h' with h' | hbare'
    · exact Or.inl (h.trans h')
    · exact Or.inr hbare'
  · rcases h' with h' | hbare'
    · obtain ⟨_, hmay, -⟩ := Relation.TransGen.head'_iff.1 h'
      exact absurd hmay hbare.not_mayShow
    · exact Or.inr hbare'

/-! ## Closed sets -/

/-- The nodes whose passes that of `id` may come to run, with those that are yet to be made. -/
def MayEnter (c : Context) (id y : DefinitionId) : Prop :=
  Relation.ReflTransGen c.MayHandle id y ∨ c.definitions.size ≤ y.index

/-- What a command in the text of such a node renders is what may come to be rendered. -/
theorem MayEnter.renders (hx : c.MayEnter id x) (hy : c.Mentions Inline.Renders x y) :
    c.MayRender id y ∨ c.IsBare y := by
  rcases hx with hx | hnew
  · exact Or.inl ⟨x, y, hx, hy, .refl⟩
  · exact absurd hy (not_mentions (Array.getElem?_eq_none hnew))

theorem confines_mayRender (c : Context) (id : DefinitionId) :
    c.Confines (c.MayEnter id) (fun y => c.MayRender id y ∨ c.IsBare y) where
  handles {x y} hx hy := by
    rcases hx with hx | hnew
    · exact Or.inl (hx.tail hy)
    · exact absurd hy (not_mayHandle (Array.getElem?_eq_none hnew))
  shows {x y} hx hy := by
    rcases hx with ⟨v, z, hv, hz, hx⟩ | hbare
    · exact Or.inl ⟨v, z, hv, hz, hx.tail hy⟩
    · exact absurd hy hbare.not_mayShow
  reads hx hy := MayEnter.renders hx (hy.mono Inline.Reads.renders)
  booleans hd hk := Or.inr (Or.inl ⟨_, _, hd, hk⟩)
  new hnew := ⟨Or.inr hnew, Or.inr (Or.inr hnew)⟩

/-- Whatever passes run, what may come to show in a definition is closed. -/
theorem confines_exposes (c : Context) (x : DefinitionId) :
    c.Confines (fun y => c.definitions.size ≤ y.index) (c.Exposes x) where
  handles hnew hy := absurd hy (not_mayHandle (Array.getElem?_eq_none hnew))
  shows {y z} hy hz := by
    rcases hy with hy | hbare
    · exact Or.inl (hy.tail hz)
    · exact absurd hz hbare.not_mayShow
  reads hnew hy := absurd hy (not_mentions (Array.getElem?_eq_none hnew))
  booleans hd hk := Or.inr (Or.inl ⟨_, _, hd, hk⟩)
  new hnew := ⟨hnew, Or.inr (Or.inr hnew)⟩

/-! ## Exposed contexts -/

/-- The context comes from `c₀` by passes: nothing shows in a definition but what may come to. -/
structure Exposed (c₀ c : Context) : Prop where
  confined : ∀ x, Confined c₀ (fun y => c₀.definitions.size ≤ y.index) (c₀.Exposes x) c
  shown : ∀ {x d}, c.definition? x = some d → ∀ y ∈ d.kind.shownLinks, c₀.Exposes x y

theorem exposed_self (c : Context) : Exposed c c where
  confined x := (c.confines_exposes x).confined
  shown hd _ hy := Or.inl (.single (Or.inl ⟨_, hd, hy⟩))

namespace Exposed

variable (h : Exposed c₀ c)
include h

theorem of_core_eq (he : c'.core = c.core) : Exposed c₀ c' where
  confined x := (h.confined x).of_core_eq he
  shown {x d'} hd' := by
    obtain ⟨references, hd⟩ := definition?_of_core_eq he.symm hd'
    exact fun y hy => h.shown hd y hy

/-- A truth value is made. -/
theorem addBoolean (key : String) (value : Bool) :
    Exposed c₀ (c.addBoolean none key value).2 where
  confined x := (h.confined x).addBoolean key value
  shown {x d'} hd' := by
    rcases of_definition?_addDefinition hd' with hd' | ⟨-, rfl⟩
    · exact h.shown hd'
    · rintro y ⟨⟩

/-- One definition is changed in what it holds: what it shows then may come to show in it. -/
theorem modifyKind {f : DefinitionKind → DefinitionKind}
    (hconfined : ∀ x, Confined c₀ (fun y => c₀.definitions.size ≤ y.index) (c₀.Exposes x)
      (c.modifyDefinition id fun d => { d with kind := f d.kind }))
    (hf : ∀ {d}, c.definition? id = some d → ∀ y ∈ (f d.kind).shownLinks,
      y ∈ d.kind.shownLinks ∨ c₀.Exposes id y) :
    Exposed c₀ (c.modifyDefinition id fun d => { d with kind := f d.kind }) where
  confined := hconfined
  shown {x d'} hd' y hy := by
    obtain ⟨d, hd, rfl⟩ := definition?_modifyKind hd'
    dsimp only at hy
    split at hy
    · rename_i he
      subst he
      exact (hf hd y hy).elim (h.shown hd y) fun hy => hy
    · exact h.shown hd y hy

/-- A part reference gets its target. -/
theorem setTarget {d : Definition} {reference : PartReference} {target : DefinitionId}
    (hd : c.definition? id = some d) (hk : d.kind = .partReference reference)
    (hnone : reference.target = none)
    (ht : c.lookup? reference.targetKey d.document = some target) :
    Exposed c₀ ((c.addReference target id).setTarget id target) := by
  have hconfined := fun x =>
    ((h.confined x).setTarget (c₀.confines_exposes x) hd hk hnone ht).2
  have htarget : c₀.Exposes id target :=
    (h.confined id).found (fun _ => And.right) (fun y hy =>
      Or.inl (.single (Or.inr (Or.inl ((h.confined id).refers hd hk hnone hy))))) ht
  rw [setTarget_eq] at hconfined ⊢
  refine (h.of_core_eq (c.core_addReference target id)).modifyKind hconfined fun {d'} hd' y hy => ?_
  obtain ⟨references, hd''⟩ := definition?_addReference hd target id
  cases hd'.symm.trans hd''
  rw [show ({ d with references } : Definition).kind = _ from hk] at hy
  rcases DefinitionKind.mem_shownLinks.1 hy with hy | hy | hy <;> cases hy
  exact Or.inr htarget

/-- A text is handled: what it shows then may come to show in the definition. -/
theorem resolveCommands {l : List Inline} (hl : ∀ t ∈ Inline.shownTargets l, c₀.Exposes id t) :
    Exposed c₀ (c.modifyContent id fun content => content.resolveCommands l) := by
  have hconfined : ∀ x, Confined c₀ _ (c₀.Exposes x) _ := fun x =>
    (h.confined x).resolveCommands fun hx t ht => hx.trans (hl t ht)
  rw [modifyContent_eq] at hconfined ⊢
  refine h.modifyKind hconfined fun {d} _ y hy => ?_
  rw [DefinitionKind.mem_shownLinks, DefinitionKind.children_mapContents,
    DefinitionKind.target?_mapContents] at hy
  rcases hy with ht | hy
  · exact Or.inr (hl y (DefinitionKind.mem_shownTargets_resolveCommands ht))
  · exact Or.inl (DefinitionKind.mem_shownLinks.2 (Or.inr hy))

end Exposed

/-- What any command does to a context exposes nothing. -/
theorem permits_exposed (c₀ : Context) :
    Permits (fun _ => True) fun c c' => Exposed c₀ c → Exposed c₀ c' where
  refl _ h := h
  trans h h' hc := h' (h hc)
  warn c warnings h := h.of_core_eq (c.core_warnAll warnings)
  reference c definition user h := h.of_core_eq (c.core_addReference definition user)
  number _ c document h := h.of_core_eq (c.core_modifyFootnotes document _)
  boolean _ _ value h := h.addBoolean _ value

end Context

/-- The handling of a text exposes nothing, if the passes of nodes do not. -/
theorem exposed_resolveContent {handle : DefinitionId → Engine Unit}
    (hh : ∀ id, (handle id).Moves fun c c' => Exposed c₀ c → Exposed c₀ c')
    (hconfined : ∀ x id, (handle id).Moves fun c c' =>
      Confined c₀ (fun y => c₀.definitions.size ≤ y.index) (c₀.Exposes x) c →
        Confined c₀ (fun y => c₀.definitions.size ≤ y.index) (c₀.Exposes x) c')
    {d : Definition} {content : Content} {r : Except Error Unit}
    (hd : c.definition? id = some d) (hcontent : content ∈ d.kind.contents)
    (h : (Engine.resolveContent handle id content).Gives c r c') (hc : Exposed c₀ c) :
    Exposed c₀ c' := by
  rcases Engine.gives_resolveContent h with ⟨-, -, rfl⟩ | ⟨hunparsed, r₁, c₁, hsource, hends⟩
  · exact hc
  have hc₁ : Exposed c₀ c₁ := Engine.resolveSource_moves (permits_exposed c₀)
    (fun c document _ hc => hc.of_core_eq (c.core_modifyFootnotes document _)) hh id
    content.source _ _ _ hsource hc
  rcases hends with ⟨_, -, -, rfl⟩ | ⟨l, rfl, -, rfl⟩
  · exact hc₁
  · refine hc₁.resolveCommands ?_
    exact shown_of_resolveSource (hconfined id) (hc.confined id) hd hcontent hunparsed
      (fun y hy => Or.inl (.single hy)) hsource

/-- **Nothing comes to show in a definition but what may come to**, as long as passes run. -/
theorem exposed_handleCommands (n : Nat) (id : DefinitionId) :
    (Engine.handleCommands n id).Moves fun c c' => Exposed c₀ c → Exposed c₀ c' :=
  Engine.handleCommands_moves (permits_exposed c₀).toComposes
    (fun {c c₁} h hc => (h (hc.of_core_eq (c.core_atDepth _))).of_core_eq (c₁.core_atDepth _))
    (fun hd hk hnone hl hc => hc.setTarget hd hk hnone hl)
    (fun n hh _ _ _ _ _ _ hd hcontent h => exposed_resolveContent hh
      (fun x => confined_handleCommands (c₀.confines_exposes x) n) hd hcontent h) n id

/-! ## Renderings that come to an end -/

namespace Context

/-- A definition has a text if those that it shows have. -/
theorem segments?_isSome_of_links {d : Definition} (hd : c.definition? x = some d)
    (htags : (c.effectiveTags? x).isSome)
    (h : ∀ y ∈ d.kind.shownLinks, (c.segments? y).isSome) : (c.segments? x).isSome := by
  obtain ⟨s, hs⟩ := Option.isSome_iff_exists.1 (DefinitionKind.segments_isSome htags h)
  have hwithin : c.segmentsWithin (c.definitions.size + 1) x = some s := by
    rw [segmentsWithin_succ, hd]
    exact hs
  rw [segments?_of_within hwithin]
  rfl

/-- Truth values stay truth values, and what is made is one. -/
theorem Extends.of_isBare (h : Extends (c₀.atDepth c.depth) c) {d : Definition}
    (hbare : c₀.IsBare x) (hd : c.definition? x = some d) : ∃ value, d.kind = .boolean value := by
  rcases hbare with ⟨d₀, value, hd₀, hk⟩ | hnew
  · obtain ⟨references, kind, hd', -, hadvances⟩ := h.old hd₀
    cases hd.symm.trans hd'
    exact ⟨value, hadvances.boolean hk⟩
  · obtain ⟨value, references, rfl⟩ := h.new (Array.getElem?_eq_none hnew) hd
    exact ⟨value, rfl⟩

/-- The definitions of the context that may show in the text of `x`, and `x` itself. -/
def Below (c : Context) (x : DefinitionId) : Type :=
  { y : DefinitionId // c.Has y ∧ Relation.ReflTransGen c.MayShow x y }

/-- If none of them shows in itself, they can be gone through from those that show nothing. -/
theorem wellFounded_below (h : ∀ y, Relation.ReflTransGen c.MayShow x y → ¬ c.IsCircular y) :
    WellFounded fun y z : c.Below x => Relation.TransGen c.MayShow z.1 y.1 := by
  have : Finite (c.Below x) :=
    Finite.of_injective (fun y : c.Below x => (⟨y.1.index, y.2.1⟩ : Fin c.definitions.size))
      fun _ _ he => Subtype.ext (congrArg DefinitionId.mk (Fin.mk.inj he))
  have : IsTrans (c.Below x) fun y z => Relation.TransGen c.MayShow z.1 y.1 :=
    ⟨fun _ _ _ hyx hzy => hzy.trans hyx⟩
  have : Std.Irrefl fun y z : c.Below x => Relation.TransGen c.MayShow z.1 y.1 :=
    ⟨fun y hy => h y.1 y.2.2 hy⟩
  exact Finite.wellFounded_of_trans_of_irrefl _

/-- **What leads to no circle has a text**, as long as passes run. -/
theorem Exposed.segments? (h : Exposed c₀ c) (hlinked : c.IsLinked)
    (hextends : Extends (c₀.atDepth c.depth) c)
    (hcircle : ∀ y, Relation.ReflTransGen c₀.MayShow x y → ¬ c₀.IsCircular y) (hx : c.Has x) :
    (c.segments? x).isSome := by
  have hbare : ∀ {y}, c₀.IsBare y → c.Has y → (c.segments? y).isSome := by
    intro y hy hhas
    obtain ⟨d, hd⟩ := has_iff.1 hhas
    obtain ⟨value, hk⟩ := hextends.of_isBare hy hd
    refine segments?_isSome_of_links hd (hlinked.effectiveTags? hhas) ?_
    rw [hk]
    rintro _ ⟨⟩
  have hbelow : ∀ y : c₀.Below x, c.Has y.1 → (c.segments? y.1).isSome := by
    intro y
    induction y using (wellFounded_below hcircle).induction with
    | _ y ih =>
      intro hhas
      obtain ⟨d, hd⟩ := has_iff.1 hhas
      refine segments?_isSome_of_links hd (hlinked.effectiveTags? hhas) fun z hz => ?_
      have hz' : c.Has z := hlinked.links hd z (DefinitionKind.mem_links_of_shown hz)
      rcases h.shown hd z hz with hshow | hz₀
      · rcases Nat.lt_or_ge z.index c₀.definitions.size with hlt | hge
        · exact ih ⟨z, hlt, y.2.2.trans hshow.to_reflTransGen⟩ hshow hz'
        · exact hbare (Or.inr hge) hz'
      · exact hbare hz₀ hz'
  rcases Nat.lt_or_ge x.index c₀.definitions.size with hlt | hge
  · exact hbelow ⟨x, hlt, .refl⟩ hx
  · exact hbare (Or.inr hge) hx

end Context

end Rubric
