/-
  Rubric — the command pass where fonts have been converted elsewhere.

  Commands read some texts in Unicode and others as they render.  Conversion
  changes only what is read as it renders, so it makes a difference to the command
  pass of a definition only through texts of the second sort.

  * `Context.Resembles legible c c'`: contexts that differ in converted texts, of
    which the legible ones render alike all the same;
  * `mirrors_resembling`: such contexts agree in what a command pass looks at that
    reads what is legible, from one of them;
  * `Context.MayConsult`: which texts a command pass may read as they render, as far
    as can be told before it runs;
  * **`commands_after_fonts`**: font passes make no difference to a command pass
    that reads nothing they have reworded; `commands_after_fonts_of_reading`: they
    do to one that reads a key they have converted.
-/
import Rubric.Proofs.Allowance
import Rubric.Proofs.FontFrame
import Rubric.Proofs.Frame
import Rubric.Proofs.Reading

namespace Rubric

open Context Engine Text

variable {c₀ c c' c₁ c₁' : Context} {nodes legible : DefinitionId → Prop} {id x : DefinitionId}

/-! ## Contexts that resemble each other -/

/-- What two definitions hold differs in handled texts; in Unicode, these look alike whatever they
    insert, and if the definition is legible they do so as they render. -/
structure DefinitionKind.Resembles (fonts : FontRegistry) (tags : Tags) (isLegible : Prop)
    (kind kind' : DefinitionKind) : Prop where
  outline : kind'.outline = kind.outline
  shownLinks : kind'.shownLinks = kind.shownLinks
  settled : ∀ f, (kind'.segments f (some tags)).map (List.map fonts.settle) =
    (kind.segments f (some tags)).map (List.map fonts.settle)
  plain : isLegible → ∀ f, (kind'.segments f (some tags)).map Segment.plain =
    (kind.segments f (some tags)).map Segment.plain

namespace DefinitionKind

variable {kind kind' : DefinitionKind}

/-- Where one of the texts is unread the other one is the same. -/
theorem mem_contents_of_outline_eq (h : kind'.outline = kind.outline) {content : Content}
    (hmem : content ∈ kind'.contents) (hunparsed : content.stage = .unparsed) :
    content ∈ kind.contents := by
  have hmap := congrArg contents h
  rw [outline, contents_mapContents, outline, contents_mapContents] at hmap
  have houtline : content.outline ∈ kind.contents.map Content.outline := by
    rw [← hmap]
    exact List.mem_map_of_mem hmem
  obtain ⟨content₀, hmem₀, he⟩ := List.mem_map.1 houtline
  rcases Content.eq_of_outline_eq he with ⟨-, rfl⟩ | ⟨hhandled, -⟩
  · exact hmem₀
  · exact absurd hunparsed hhandled

/-- Once a text is handled there is no difference any more. -/
theorem resolveCommands_of_outline_eq (h : kind'.outline = kind.outline) (l : List Inline) :
    kind'.mapContents (fun content => content.resolveCommands l) =
      kind.mapContents fun content => content.resolveCommands l := by
  have houtline : ∀ kind : DefinitionKind,
      kind.outline.mapContents (fun content => content.resolveCommands l) =
        kind.mapContents fun content => content.resolveCommands l := by
    intro kind
    rw [outline, mapContents_mapContents]
    congr 1
    funext content
    rcases content with ⟨source, _ | _ | _⟩ <;> rfl
  rw [← houtline kind', h, houtline]

theorem setTarget_of_outline_eq (h : kind'.outline = kind.outline) (target : DefinitionId) :
    kind'.setTarget target = kind.setTarget target ∨
      kind.setTarget target = kind ∧ kind'.setTarget target = kind' := by
  rcases eq_of_outline_eq h with ⟨_, _, rfl, rfl, -⟩ | ⟨_, _, -, ⟨rfl, rfl⟩ | ⟨rfl, rfl⟩⟩ |
    ⟨rfl, -⟩
  · exact Or.inr ⟨rfl, rfl⟩
  · exact Or.inr ⟨rfl, rfl⟩
  · exact Or.inr ⟨rfl, rfl⟩
  · exact Or.inl rfl

end DefinitionKind

namespace Context

/-- The contexts differ in converted texts, in footnotes and in warnings; the texts of legible
    definitions render alike all the same. -/
structure Resembles (legible : DefinitionId → Prop) (c c' : Context) : Prop where
  written : c'.unresolved = c.unresolved
  depth : c'.depth = c.depth
  drawn : ∀ d, c'.drawn d = c.drawn d
  definition : ∀ {x d}, c.definition? x = some d → ∃ references kind,
    c'.definition? x = some { d with references, kind } ∧ (kind = d.kind ∨
      ∃ tags, c.effectiveTags? x = some tags ∧ d.kind.Resembles c.fonts tags (legible x) kind)

namespace Resembles

section
variable (h : Resembles legible c c')
include h

theorem fonts_eq : c'.fonts = c.fonts :=
  show c'.unresolved.fonts = c.unresolved.fonts by rw [h.written]

theorem effectiveTags? (x : DefinitionId) : c'.effectiveTags? x = c.effectiveTags? x :=
  effectiveTags?_of_unresolved_eq h.written x

theorem size_eq : c'.definitions.size = c.definitions.size :=
  size_of_unresolved_eq h.written

/-- What a definition is in the first context. -/
theorem of_definition? {d' : Definition} (hd' : c'.definition? x = some d') :
    ∃ d references kind, c.definition? x = some d ∧ d' = { d with references, kind } ∧
      (kind = d.kind ∨ ∃ tags, c.effectiveTags? x = some tags ∧
        d.kind.Resembles c.fonts tags (legible x) kind) := by
  obtain ⟨d, hd, -⟩ := definition?_of_unresolved_eq h.written hd'
  obtain ⟨references, kind, hd'', hk⟩ := h.definition hd
  exact ⟨d, references, kind, hd, Option.some.inj (hd'.symm.trans hd''), hk⟩

/-- A definition is the same in the first context, but for references and handled texts. -/
theorem origin {d' : Definition} (hd' : c'.definition? x = some d') :
    ∃ d, c.definition? x = some d ∧ d'.document = d.document ∧
      d'.kind.outline = d.kind.outline ∧ d'.kind.shownLinks = d.kind.shownLinks := by
  obtain ⟨d, references, kind, hd, rfl, rfl | ⟨tags, -, hk⟩⟩ := h.of_definition? hd'
  · exact ⟨d, hd, rfl, rfl, rfl⟩
  · exact ⟨d, hd, rfl, hk.outline, hk.shownLinks⟩

/-- What is no definition in the first context is none in the second one. -/
theorem definition?_none (hd : c.definition? x = none) : c'.definition? x = none := by
  rcases hd' : c'.definition? x with _ | d'
  · rfl
  · obtain ⟨d, _, _, hd'', -⟩ := h.of_definition? hd'
    cases hd.symm.trans hd''

/-- Definitions differ in references and handled texts at most. -/
theorem outline (x : DefinitionId) :
    (c'.definition? x).map Definition.outline = (c.definition? x).map Definition.outline := by
  rcases hd : c.definition? x with _ | d
  · rw [h.definition?_none hd]
  obtain ⟨references, kind, hd', rfl | ⟨tags, -, hk⟩⟩ := h.definition hd
  · rw [hd']; rfl
  · rw [hd', Option.map_some, Option.map_some, Definition.outline, hk.outline, Definition.outline]

theorem symm : Resembles legible c' c where
  written := h.written.symm
  depth := h.depth.symm
  drawn d := (h.drawn d).symm
  definition {x d'} hd' := by
    obtain ⟨d, references, kind, hd, rfl, hk⟩ := h.of_definition? hd'
    refine ⟨d.references, d.kind, hd, ?_⟩
    rcases hk with rfl | ⟨tags, htags, hk⟩
    · exact Or.inl rfl
    · refine Or.inr ⟨tags, (h.effectiveTags? x).trans htags, ?_⟩
      rw [h.fonts_eq]
      exact {
        outline := hk.outline.symm
        shownLinks := hk.shownLinks.symm
        settled := fun f => (hk.settled f).symm
        plain := fun hx f => (hk.plain hx f).symm }

/-! ### Texts -/

/-- In Unicode one round of rendering looks alike. -/
theorem settled (f : DefinitionId → Option (List Segment)) (x : DefinitionId) :
    (c'.segmentsOver f x).map (List.map c.fonts.settle) =
      (c.segmentsOver f x).map (List.map c.fonts.settle) := by
  rw [segmentsOver, segmentsOver, h.effectiveTags?]
  rcases hd : c.definition? x with _ | d
  · rw [h.definition?_none hd]
  obtain ⟨references, kind, hd', rfl | ⟨tags, htags, hk⟩⟩ := h.definition hd
  · rw [hd']; rfl
  · rw [hd', htags]
    exact hk.settled f

/-- As it renders, one round looks alike for what is legible. -/
theorem plain (f : DefinitionId → Option (List Segment)) (hx : legible x) :
    (c'.segmentsOver f x).map Segment.plain = (c.segmentsOver f x).map Segment.plain := by
  rw [segmentsOver, segmentsOver, h.effectiveTags?]
  rcases hd : c.definition? x with _ | d
  · rw [h.definition?_none hd]
  obtain ⟨references, kind, hd', rfl | ⟨tags, htags, hk⟩⟩ := h.definition hd
  · rw [hd']; rfl
  · rw [hd', htags]
    exact hk.plain hx f

theorem segments?_settled (x : DefinitionId) :
    (c'.segments? x).map (List.map c.fonts.settle) =
      (c.segments? x).map (List.map c.fonts.settle) := by
  rw [segments?, segments?, h.size_eq]
  exact segmentsWithin_congr (Segment.merges_settle c.fonts) (S := fun _ => True)
    (fun _ _ _ _ => trivial) (fun f {x} _ => h.settled f x) _ trivial

/-- The Unicode texts of definitions are the same. -/
theorem normalizedText? (x : DefinitionId) : c'.normalizedText? x = c.normalizedText? x := by
  have hnormalize : ∀ segments,
      c.fonts.normalize segments = Segment.plain (segments.map c.fonts.settle) :=
    fun segments => (c.fonts.plain_map_settle segments).symm
  have hsegments := congrArg (Option.map Segment.plain) (h.segments?_settled x)
  simp only [Option.map_map] at hsegments
  rw [Context.normalizedText?, Context.normalizedText?, h.fonts_eq, funext hnormalize]
  exact hsegments

/-- What shows in one of the contexts shows in the other one. -/
theorem renders {y : DefinitionId} (hy : c.Renders x y) : c'.Renders x y := by
  refine Relation.ReflTransGen.mono ?_ _ _ hy
  rintro y z ⟨d, hd, hz⟩
  obtain ⟨references, kind, hd', rfl | ⟨tags, -, hk⟩⟩ := h.definition hd
  · exact ⟨_, hd', hz⟩
  · exact ⟨_, hd', hk.shownLinks ▸ hz⟩

theorem isLegible {p : Inline} (hp : c'.IsLegible legible p) : c.IsLegible legible p :=
  fun t ht z hz => hp t ht z (h.renders hz)

/-- What is legible renders the same. -/
theorem inlineText? {p : Inline} (hp : c.IsLegible legible p) :
    c'.inlineText? p = c.inlineText? p := by
  have hsegments : ∀ t ∈ Inline.shownTargets [p],
      (c'.segments? t).map Segment.plain = (c.segments? t).map Segment.plain := by
    intro t ht
    rw [segments?, segments?, h.size_eq]
    refine segmentsWithin_congr Segment.merges_plain (S := fun y => ∀ z, c.Renders y z → legible z)
      (fun hx hd y hy z hz => hx z (.head ⟨_, hd, hy⟩ hz)) (fun f {_} hx => h.plain f (hx _ .refl))
      _ (hp t ht)
  exact Inline.segments_congr Segment.merges_plain p _ hsegments

theorem inlineSegments?_settled (tags : Tags) (p : Inline) :
    (c'.inlineSegments? tags p).map (List.map c.fonts.settle) =
      (c.inlineSegments? tags p).map (List.map c.fonts.settle) :=
  Inline.segments_congr (Segment.merges_settle c.fonts) p _ fun t _ => h.segments?_settled t

/-! ### Changes of both contexts -/

/-- Records are changed. -/
theorem of_core_eq (he : c₁.core = c.core) (he' : c₁'.core = c'.core)
    (hdepth : c₁'.depth = c₁.depth) (hdrawn : ∀ d, c₁'.drawn d = c₁.drawn d) :
    Resembles legible c₁ c₁' where
  written := by
    rw [unresolved_of_core_eq he, unresolved_of_core_eq he']
    exact h.written
  depth := hdepth
  drawn := hdrawn
  definition {x d₁} hd₁ := by
    obtain ⟨references, hd⟩ := definition?_of_core_eq he.symm hd₁
    obtain ⟨references', kind, hd', hk⟩ := h.definition hd
    obtain ⟨references₁, hd₁'⟩ := definition?_of_core_eq he' hd'
    have hfonts : c₁.fonts = c.fonts := show c₁.core.fonts = c.core.fonts by rw [he]
    rw [effectiveTags?_of_unresolved_eq (unresolved_of_core_eq he), hfonts]
    exact ⟨references₁, kind, hd₁', hk⟩

/-- A definition is changed in what it holds, so that no difference is left or nothing happens. -/
theorem modifyKind {f : DefinitionKind → DefinitionKind}
    (hwritten : ∀ kind, (f kind).unresolved = kind.unresolved)
    (hf : ∀ {kind kind' : DefinitionKind}, kind'.outline = kind.outline →
      f kind' = f kind ∨ f kind = kind ∧ f kind' = kind') :
    Resembles legible (c.modifyDefinition id fun d => { d with kind := f d.kind })
      (c'.modifyDefinition id fun d => { d with kind := f d.kind }) where
  written := by
    rw [unresolved_modifyKind hwritten, unresolved_modifyKind hwritten]
    exact h.written
  depth := h.depth
  drawn := h.drawn
  definition {x d₁} hd₁ := by
    obtain ⟨d, hd, rfl⟩ := definition?_modifyKind hd₁
    obtain ⟨references, kind, hd', hk⟩ := h.definition hd
    rw [effectiveTags?_of_unresolved_eq (unresolved_modifyKind hwritten)]
    refine ⟨references, if id = x then f kind else kind, ?_, ?_⟩
    · rw [definition?_modifyDefinition, hd']
      by_cases he : id = x <;> simp [he]
    by_cases he : id = x
    case neg =>
      simp only [he, if_false]
      exact hk
    simp only [he, if_true]
    rcases hk with rfl | ⟨tags, htags, hk⟩
    · exact Or.inl rfl
    · rcases hf hk.outline with hsame | ⟨hkind, hkind'⟩
      · exact Or.inl hsame
      · rw [hkind, hkind']
        exact Or.inr ⟨tags, htags, hk⟩

theorem hasList_eq (d : Option DocumentId) : c'.HasList d = c.HasList d := by
  have hsize := congrArg (fun c : Context => c.documents.size) h.written
  simp only [unresolved, core, Array.size_map] at hsize
  rcases d with _ | document
  · rfl
  · rw [HasList, HasList, hsize]

/-- A number is drawn. -/
theorem number (document : Option DocumentId) :
    Resembles legible
      (c.modifyFootnotes document fun list => { list with counter := list.counter + 1 })
      (c'.modifyFootnotes document fun list => { list with counter := list.counter + 1 }) := by
  refine h.of_core_eq (c.core_modifyFootnotes document _) (c'.core_modifyFootnotes document _)
    ?_ fun d => ?_
  · rw [depth_modifyFootnotes, depth_modifyFootnotes]
    exact h.depth
  · by_cases hd : c.HasList d
    · have hdrawn := h.drawn d
      have hd' : c'.HasList d := h.hasList_eq d ▸ hd
      rw [Context.drawn, Context.drawn] at hdrawn ⊢
      rw [footnoteList_modifyFootnotes c document _ hd,
        footnoteList_modifyFootnotes c' document _ hd']
      by_cases he : document = d
      · simpa only [if_pos he, Nat.add_right_cancel_iff] using hdrawn
      · simpa only [if_neg he] using hdrawn
    · have hnone : ∀ c : Context, ¬ c.HasList d → (c.modifyFootnotes document fun list =>
          { list with counter := list.counter + 1 }).footnoteList d = {} := fun c hd =>
        footnoteList_of_not_hasList (by rwa [hasList_modifyFootnotes])
      rw [Context.drawn, Context.drawn, hnone c hd, hnone c' (by rwa [h.hasList_eq])]

/-- A truth value is made. -/
theorem addBoolean (key : String) (value : Bool) :
    (c'.addBoolean none key value).1 = (c.addBoolean none key value).1 ∧
      Resembles legible (c.addBoolean none key value).2 (c'.addBoolean none key value).2 := by
  obtain ⟨warnings, hmade⟩ := c.exists_addBoolean key value
  obtain ⟨warnings', hmade'⟩ := c'.exists_addBoolean key value
  have hunresolved : ∀ (c : Context) warnings,
      ({ c.warnAll warnings with
        globalKeys := c.globalKeys.insert key ⟨c.definitions.size⟩
        definitions := c.definitions.push { key := some key, kind := .boolean value } } :
          Context).unresolved =
        { c.unresolved with
          globalKeys := c.unresolved.globalKeys.insert key ⟨c.unresolved.definitions.size⟩
          definitions :=
            c.unresolved.definitions.push { key := some key, kind := .boolean value } } := by
    intro c warnings
    simp [unresolved, core, warnAll, Definition.unresolved, DefinitionKind.unresolved,
      DefinitionKind.mapContents]
  have htags : ∀ {x tags}, c.effectiveTags? x = some tags →
      (c.addBoolean none key value).2.effectiveTags? x = some tags :=
    (Step.addBoolean c key value).effectiveTags?
  refine ⟨congrArg DefinitionId.mk h.size_eq, ?_⟩
  rw [hmade] at htags ⊢
  rw [hmade']
  constructor
  case written => rw [hunresolved, hunresolved, h.written]
  case depth => exact h.depth
  case drawn => exact h.drawn
  case definition =>
    intro x d hd
    rw [definition?, Array.getElem?_push] at hd ⊢
    rw [h.size_eq]
    by_cases hx : x.index = c.definitions.size
    · simp only [warnAll, hx, if_true] at hd ⊢
      cases hd
      exact ⟨_, _, rfl, Or.inl rfl⟩
    · simp only [warnAll, hx, if_false] at hd ⊢
      obtain ⟨references, kind, hd', hk⟩ := h.definition hd
      refine ⟨references, kind, hd', hk.imp_right ?_⟩
      rintro ⟨tags, ht, hk⟩
      exact ⟨tags, htags ht, hk⟩

end

end Resembles

namespace Resembles

section
variable (h : Resembles legible c c')
include h

/-- Segments that are the same in Unicode are read alike, whatever warnings they give. -/
theorem agrees {segments segments' : List Segment}
    (hs : segments'.map c.fonts.settle = segments.map c.fonts.settle) :
    Agrees (Resembles legible) c c' segments segments' where
  text := by rw [h.fonts_eq, ← c.fonts.plain_map_settle, ← c.fonts.plain_map_settle, hs]
  warned := h.of_core_eq (c.core_warnAll _) (c'.core_warnAll _) h.depth h.drawn

/-- It makes no difference how many passes are under way, if they are as many in both. -/
theorem atDepth (depth : Nat) : Resembles legible (c.atDepth depth) (c'.atDepth depth) :=
  h.of_core_eq (c.core_atDepth depth) (c'.core_atDepth depth) rfl h.drawn

theorem routeFootnotes (document : Option DocumentId) (notes : List Footnote) :
    Resembles legible (c.routeFootnotes document notes) (c'.routeFootnotes document notes) := by
  refine h.of_core_eq (c.core_modifyFootnotes document _) (c'.core_modifyFootnotes document _)
    ?_ fun d => ?_
  · rw [Context.routeFootnotes, Context.routeFootnotes, depth_modifyFootnotes,
      depth_modifyFootnotes, h.depth]
  · rw [drawn_routeFootnotes, drawn_routeFootnotes]
    exact h.drawn d

end

end Resembles

end Context

/-! ## Passes side by side -/

/-- From one of the contexts, what is read is legible. -/
def ReadsLegibly (legible : DefinitionId → Prop) (Reads : Context → Inline → Context → Prop)
    (c c' : Context) : Prop :=
  (∀ p c₁, Reads c p c₁ → c₁.IsLegible legible p) ∨ ∀ p c₁, Reads c' p c₁ → c₁.IsLegible legible p

/-- What is read from where a computation gets to is read by the computation. -/
theorem ReadsLegibly.imp {Reads Reads' : Context → Inline → Context → Prop}
    (h : ReadsLegibly legible Reads c c') (hfirst : ∀ p c₂, Reads' c₁ p c₂ → Reads c p c₂)
    (hsecond : ∀ p c₂, Reads' c₁' p c₂ → Reads c' p c₂) : ReadsLegibly legible Reads' c₁ c₁' :=
  Or.imp (fun h p c₂ hp => h p c₂ (hfirst p c₂ hp)) (fun h p c₂ hp => h p c₂ (hsecond p c₂ hp)) h

/-- **Contexts that resemble each other agree in what a command pass looks at** that reads what is
    legible, from one of them. -/
theorem mirrors_resembling (legible : DefinitionId → Prop) (n : Nat) :
    Mirrors (handleCommands n) (handleCommands n)
      (fun id => ReadsLegibly legible (ConsultsOver n (Engine.Consults n) id))
      (fun id => ReadsLegibly legible (Engine.Consults n id))
      (fun scope tags l => ReadsLegibly legible
        (Inline.Consults (handleCommands n) (Engine.Consults n) scope tags l))
      (fun c _ p => c.IsLegible legible p) (Resembles legible) where
  lookup? h := lookup?_of_unresolved_eq h.written
  commands h := commands_of_unresolved_eq h.written
  analyzers {c c'} h := show c'.unresolved.analyzers = c.unresolved.analyzers by rw [h.written]
  equivalence h := by rw [settings_of_unresolved_eq h.written]
  lineSeparator h := by rw [settings_of_unresolved_eq h.written]
  syllableSeparator h := by rw [settings_of_unresolved_eq h.written]
  effectiveTags? h := h.effectiveTags?
  outline h := h.outline
  counter h document := h.drawn document
  text h hp hs := (h.inlineText? hp).trans hs
  readable_of_core hp he _ := hp.of_core_eq he
  inlineSegments? := by
    intro c c' tags p segments h hs
    have hsettled := h.inlineSegments?_settled tags p
    rw [hs, Option.map_some] at hsettled
    obtain ⟨segments', hs', he⟩ := Option.map_eq_some_iff.1 hsettled
    exact ⟨segments', hs', h.agrees he⟩
  segments? := by
    intro c c' x segments h hs
    have hsettled := h.segments?_settled x
    rw [hs, Option.map_some] at hsettled
    obtain ⟨segments', hs', he⟩ := Option.map_eq_some_iff.1 hsettled
    exact ⟨segments', hs', h.agrees he⟩
  reference {c c'} h definition user := h.of_core_eq (c.core_addReference definition user)
    (c'.core_addReference definition user) h.depth h.drawn
  number h := h.number
  boolean h value key _ := h.addBoolean key value
  route h := h.routeFootnotes
  handled {c c'} h id l := by
    rw [modifyContent_eq, modifyContent_eq]
    exact h.modifyKind (DefinitionKind.unresolved_mapContents fun _ => rfl)
      fun ho => Or.inl (DefinitionKind.resolveCommands_of_outline_eq ho l)
  target {c c'} h id target := by
    rw [setTarget_eq, setTarget_eq]
    exact h.modifyKind (DefinitionKind.unresolved_setTarget target)
      fun ho => DefinitionKind.setTarget_of_outline_eq ho target
  goesOnTo hid _ hy hy' _ := hid.imp (fun _ _ => .part hy) fun _ _ => .part hy'
  source := by
    intro c c' id d content l tags hid h hd hcontent hunparsed hl htags
    obtain ⟨d', hd', hdocument, ho, -⟩ := h.symm.origin hd
    have hcontent' := DefinitionKind.mem_contents_of_outline_eq ho hcontent hunparsed
    have hreads : c.Reads id d tags l := ⟨content, hcontent, hunparsed, hl, htags⟩
    have hreads' : c'.Reads id d' tags l :=
      ⟨content, hcontent', hunparsed, commands_of_unresolved_eq h.written ▸ hl,
        (h.effectiveTags? id).trans htags⟩
    rw [hdocument]
    refine hid.imp (fun _ _ hp => .text hd hreads ?_) fun _ _ => .text hd' hreads'
    rw [hdocument]
    exact hp
  span hl := hl.imp (fun _ _ hp => hp.of_begins fun hbegins => ⟨_, .span hbegins⟩)
    fun _ _ hp => hp.of_begins fun hbegins => ⟨_, .span hbegins⟩
  later hl hi hi' _ := hl.imp (fun _ _ hp => hp.of_begins fun hbegins => ⟨_, .later hi hbegins⟩)
    fun _ _ hp => hp.of_begins fun hbegins => ⟨_, .later hi' hbegins⟩
  executes hl he he' _ :=
    hl.imp (fun _ _ hp => hp.of_begins fun hbegins => ⟨_, .parameter he hbegins⟩)
      fun _ _ hp => hp.of_begins fun hbegins => ⟨_, .parameter he' hbegins⟩
  inserts hl _ hy hy' _ :=
    hl.imp (fun _ _ hp => ⟨_, _, _, _, _, .here, Or.inr ⟨_, _, hy, hp⟩⟩)
      fun _ _ hp => ⟨_, _, _, _, _, .here, Or.inr ⟨_, _, hy', hp⟩⟩
  reads hl _ hp hp' h₁ := hl.elim (fun hl => hl _ _ ⟨_, _, _, _, _, .here, Or.inl hp⟩)
    fun hl => h₁.isLegible (hl _ _ ⟨_, _, _, _, _, .here, Or.inl hp'⟩)

/-- **The command pass of a node echoes that from a context which resembles its own**, if what it
    reads from one of them is legible. -/
theorem echoes_handleCommands (n : Nat) (hid : ReadsLegibly legible (Engine.Consults n id) c c')
    (h : Resembles legible c c') :
    Echoes .always (Resembles legible) ((handleCommands n id).answer? c)
      ((handleCommands n id).answer? c') := by
  induction n generalizing id c c' with
  | zero =>
    rw [handleCommands]
    exact echoes_none _
  | succ n ih =>
    rw [handleCommands]
    refine .definition_bind fun d hd => ?_
    obtain ⟨references, kind, hd', -⟩ := h.definition hd
    refine ⟨_, hd', ?_⟩
    have hrefusal : c'.refusal? = c.refusal? := by
      rw [refusal?, refusal?, settings_of_unresolved_eq h.written, h.depth]
    refine .nested (S := Resembles legible) (fun limit hlimit => ?_)
      (fun hopen => Or.inl (hrefusal.trans hopen)) (fun hopen hopen' => ?_) fun {c₁ c₁'} h₁ => ?_
    · exact ⟨hrefusal.trans hlimit, h⟩
    · have hvisits : ReadsLegibly legible (ConsultsOver n (Engine.Consults n) id)
          (c.atDepth (c.depth + 1)) (c'.atDepth (c'.depth + 1)) :=
        hid.imp (fun _ _ hp => ⟨hopen, hp⟩) fun _ _ hp => ⟨hopen', hp⟩
      rw [h.depth] at hvisits ⊢
      exact (mirrors_resembling legible n).echoes_commandPass (fun y _ _ hy h => ih hy h) hvisits
        (h.atDepth _)
    · rw [h₁.depth]
      exact h₁.atDepth _

/-! ## Where fonts have been converted -/

namespace Context

/-- Whatever the definitions are that it stands for, the text of `z` renders the same in both
    contexts. -/
def RendersAlike (c c' : Context) (z : DefinitionId) : Prop :=
  ∀ f, (c'.segmentsOver f z).map Segment.plain = (c.segmentsOver f z).map Segment.plain

/-- The text of `z` may show in what a command reads as it renders, in a text that the command pass
    of `x` may handle, as far as can be told from unread texts. -/
def MayConsult (c : Context) (x z : DefinitionId) : Prop :=
  ∃ w v, Relation.ReflTransGen c.MayHandle x w ∧ c.MayRead w v ∧ Relation.ReflTransGen c.MayShow v z

/-- Converted contexts resemble the ones from before, if what is legible renders the same. -/
theorem Converts.resembles (h : Converts c c') (hs : c.IsSound)
    (hlegible : ∀ x, legible x → c.RendersAlike c' x) : Resembles legible c c' where
  written := h.written
  depth := h.depth
  drawn := h.drawn
  definition {x d} hd := by
    obtain ⟨kind, hd', hk⟩ := h.definition hd
    refine ⟨d.references, kind, hd', ?_⟩
    cases hk with
    | same => exact Or.inl rfl
    | @fonts tags htags =>
      refine Or.inr ⟨tags, htags, ?_, d.kind.shownLinks_resolveFonts,
        DefinitionKind.settled_resolveFonts (hs.executed hd), fun hx f => ?_⟩
      · simp only [DefinitionKind.outline, DefinitionKind.mapContents_mapContents,
          Content.outline_resolveFonts]
      · have hplain := hlegible x hx f
        rw [segmentsOver, segmentsOver, h.effectiveTags?, hd, hd', htags] at hplain
        exact hplain

/-- Definitions that are not changed render the same. -/
theorem Converts.rendersAlike (h : Converts c c') (hd : c'.definition? x = c.definition? x) :
    c.RendersAlike c' x := by
  intro f
  rw [segmentsOver, segmentsOver, hd, h.effectiveTags?]

/-- Without a text there is nothing to be converted. -/
theorem Converts.rendersAlike_of_value (h : Converts c c') {d : Definition}
    (hd : c.definition? x = some d) (hcontents : d.kind.contents = []) : c.RendersAlike c' x := by
  obtain ⟨kind, hd', hkind⟩ := h.definition hd
  have hsame : kind = d.kind := by
    cases hkind with
    | same => rfl
    | fonts => exact DefinitionKind.mapContents_eq_self (by rw [hcontents]; rintro _ ⟨⟩)
  rw [hsame] at hd'
  exact h.rendersAlike (hd'.trans hd.symm)

/-- The least sets for the command pass of `x`, if all that it may consult renders the same. -/
theorem confines_of_alike (h : Converts c c')
    (halike : ∀ z, c.MayConsult x z → c.RendersAlike c' z) :
    c.Confines
      (fun y => Relation.ReflTransGen c.MayHandle x y ∨ c.definitions.size ≤ y.index)
      (fun y => ∀ z, Relation.ReflTransGen c.MayShow y z → c.RendersAlike c' z) := by
  have hmissing : ∀ {y : DefinitionId}, c.definitions.size ≤ y.index → c.definition? y = none :=
    fun hy => Array.getElem?_eq_none hy
  have hsize := size_of_unresolved_eq h.written
  have hsilent : ∀ {y}, (∀ z, ¬ c.MayShow y z) → c.RendersAlike c' y →
      ∀ z, Relation.ReflTransGen c.MayShow y z → c.RendersAlike c' z := by
    intro y hnone hy z hz
    rcases hz.cases_head with rfl | ⟨w, hw, -⟩
    · exact hy
    · exact absurd hw (hnone w)
  constructor
  case handles =>
    rintro y z (hy | hnew) hz
    · exact Or.inl (hy.tail hz)
    · exact absurd hz (not_mayHandle (hmissing hnew))
  case shows => exact fun hy hz w hw => hy w (.head hz hw)
  case reads =>
    rintro y v (hy | hnew) hv z hz
    · exact halike z ⟨y, v, hy, hv, hz⟩
    · exact absurd hv (not_mentions (hmissing hnew))
  case booleans =>
    intro y d value hd hk
    refine hsilent (fun _ => not_mayShow_of_value hd ?_ ?_ ?_) (h.rendersAlike_of_value hd ?_)
    all_goals rw [hk]
    case refine_3 => rintro _ ⟨⟩
    all_goals rfl
  case new =>
    intro y hnew
    have hnone : c'.definition? y = none := Array.getElem?_eq_none (hsize ▸ hnew)
    exact ⟨Or.inr hnew, hsilent (fun _ => not_mayShow (hmissing hnew))
      (h.rendersAlike (hnone.trans (hmissing hnew).symm))⟩

/-- What a command pass consults renders the same if all does that it may consult. -/
theorem Converts.rendersAlike_of_consults (h : Converts c c')
    (halike : ∀ z, c.MayConsult x z → c.RendersAlike c' z) {z : DefinitionId}
    (hz : c.Consults x z) : c.RendersAlike c' z := by
  obtain ⟨n, p, c₁, hp, t, ht, hz⟩ := hz
  have hconfines := confines_of_alike h halike
  exact isLegible_of_consults hconfines n (Or.inl .refl) hconfines.confined hp t ht z hz z .refl

end Context

/-- Font passes lead from the one context to the other, however they end. -/
def Context.FontPasses : Context → Context → Prop :=
  Relation.ReflTransGen fun c c' => ∃ y r, (Call.fonts y).Ends c r c'

/-- Any number of font passes converts some texts, and changes nothing else. -/
theorem Context.FontPasses.converts (h : FontPasses c c') : Converts c c' := by
  induction h with
  | refl => exact .refl c
  | tail _ hpass ih =>
    obtain ⟨y, r, n, hpass⟩ := hpass
    exact ih.trans (converts_handleFonts n y _ _ _ hpass)

/-- However the command pass of a node ends, it ends so from a context that resembles its own, and
    the Unicode texts are the same then. -/
theorem ends_of_resembles {r : Except Error Unit} (h : Resembles legible c c')
    (hx : ∀ n, ReadsLegibly legible (Engine.Consults n x) c c')
    (hends : (Call.commands x).Ends c r c₁) :
    ∃ c₁', (Call.commands x).Ends c' r c₁' ∧ c₁'.normalizedText? = c₁.normalizedText? := by
  obtain ⟨n, hends⟩ := hends
  obtain ⟨c₁', hends', h₁⟩ := (echoes_handleCommands n (hx n) h).gives hends
  exact ⟨c₁', ⟨n, hends'⟩, funext h₁.normalizedText?⟩

/-- The command pass comes to the same before conversion and after it, if all that it consults
    before renders the same. -/
theorem ends_iff_of_converts (hs : c.IsSound) (h : Converts c c')
    (halike : ∀ z, c.Consults x z → c.RendersAlike c' z) (r : Except Error Unit)
    (texts : DefinitionId → Option String) :
    (∃ c₁, (Call.commands x).Ends c r c₁ ∧ c₁.normalizedText? = texts) ↔
      ∃ c₁, (Call.commands x).Ends c' r c₁ ∧ c₁.normalizedText? = texts := by
  have hresembles := h.resembles hs fun z (hz : c.RendersAlike c' z) => hz
  have hlegible : ∀ n p c₁, Engine.Consults n x c p c₁ → c₁.IsLegible (c.RendersAlike c') p :=
    fun n p c₁ hp t ht z hz => halike z ⟨n, p, c₁, hp, t, ht, hz⟩
  constructor
  · rintro ⟨c₁, hends, rfl⟩
    exact ends_of_resembles hresembles (fun n => Or.inl (hlegible n)) hends
  · rintro ⟨c₁, hends, rfl⟩
    exact ends_of_resembles hresembles.symm (fun n => Or.inr (hlegible n)) hends

/-- **Font passes make no difference to a command pass that reads nothing they have reworded.**
    After any calls on a built context, let any font passes run, and end as they may, or others
    instead of them, or none.  Let both leave as it renders the text of each definition that the
    command pass of `x`, run before them, consults: for a key, a condition, a tag or a separator,
    of whichever command comes to read it, in the text of `x` or of a node whose pass is run with
    it.  Then the command pass of `x` ends in the same way after both, with the same error if it
    fails, and leaves all definitions with the same Unicode texts.  What is added while the context
    is built finds its parent, and what is added by hand is not resolved and has no parts in other
    documents (`Edit.Applies`). -/
theorem commands_after_fonts {c'' : Context} {events : List Event} (hbuilt : c₀.IsBuilt)
    (h : Session c₀ events c) (hcalls : ∀ e ∈ events, e.IsCall) (hfonts : FontPasses c c')
    (hothers : FontPasses c c'')
    (halike : ∀ z, c.Consults x z → c.RendersAlike c' z ∧ c.RendersAlike c'' z)
    (r : Except Error Unit) (texts : DefinitionId → Option String) :
    (∃ c₁, (Call.commands x).Ends c' r c₁ ∧ c₁.normalizedText? = texts) ↔
      ∃ c₁, (Call.commands x).Ends c'' r c₁ ∧ c₁.normalizedText? = texts := by
  have hs := h.isSound hbuilt hcalls
  have hfirst := ends_iff_of_converts hs hfonts.converts (fun z hz => (halike z hz).1) r texts
  have hsecond := ends_iff_of_converts hs hothers.converts (fun z hz => (halike z hz).2) r texts
  exact hfirst.symm.trans hsecond

/-- A stanza reads its key off a value, and inserts a text in a legacy font: it makes no difference
    that this has been converted. -/
theorem commands_after_fonts_of_insertion :
    ∃ c₀ c c' c₁ c₁' : Context, ∃ events, c₀.IsBuilt ∧ Session c₀ events c ∧
      (∀ e ∈ events, e.IsCall) ∧ (Call.fonts ⟨1⟩).Ends c (.ok ()) c' ∧
      (∀ z, c.Consults ⟨3⟩ z → c.RendersAlike c' z) ∧ c.text? ⟨1⟩ = some "a" ∧
      c'.text? ⟨1⟩ = some "ⲁ" ∧ (Call.commands ⟨3⟩).Ends c (.ok ()) c₁ ∧
      (Call.commands ⟨3⟩).Ends c' (.ok ()) c₁' ∧ c₁.normalizedText? ⟨3⟩ = some "ⲁ" ∧
      c₁'.normalizedText? = c₁.normalizedText? := by
  let c₀ := [Edit.addDocument "d" "D", .addVersion ⟨0⟩ (.ofKnown .coptic) none,
    .addStanza ⟨0⟩ (some "5") "a", .setFont ⟨1⟩ "CS Avva Shenouda",
    .addDefinition { key := some "k", kind := .integer 5 } none,
    .addStanza ⟨0⟩ none "\\def\x7b\\def\x7bk\x7d\x7d"].foldl Edit.apply (.new {})
  let c := (Call.commands ⟨1⟩).run 4 c₀
  let c' := (Call.fonts ⟨1⟩).run 4 c
  have hbuilt : c₀.IsBuilt := (Context.isBuilt_new {}).edits (by decide +kernel)
  have hhandled : (Call.commands ⟨1⟩).Ends c₀ (.ok ()) c := Call.ends_run (by decide +kernel)
  have h : Session c₀ ([] ++ [.call (.commands ⟨1⟩) (.ok ())]) c := .call .start hhandled
  have hcalls : ∀ e ∈ [] ++ [Event.call (.commands ⟨1⟩) (.ok ())], e.IsCall := by
    simp [Event.IsCall]
  have hfonts : (Call.fonts ⟨1⟩).Ends c (.ok ()) c' := Call.ends_run (by decide +kernel)
  have hpasses : FontPasses c c' := .single ⟨⟨1⟩, .ok (), hfonts⟩
  obtain ⟨n, hn⟩ := hhandled
  have hextends := extends_handleCommands n _ _ _ _ hn
  have hunread : ∀ d ∈ c.definitions, ∀ content ∈ d.kind.contents, ¬ content.IsHandled →
      content.source = "\\def\x7b\\def\x7bk\x7d\x7d" ∧ d.document = some ⟨0⟩ := by decide +kernel
  have hparse : Markup.parse c.commands "\\def\x7b\\def\x7bk\x7d\x7d" =
      .ok [.command "def" .definition [.command "def" .definition [.span [.run "k" .unset] .unset]
        .unset .pending] .unset .pending] := by
    rw [hextends.commands, show c₀.commands = (Context.new {}).commands from rfl]
    rfl
  -- the inner command reads plain text, and the outer one what the inner one inserts
  have hreads : ∀ {w v}, c.MayRead w v → v = ⟨2⟩ := by
    rintro w v ⟨d, content, l, i, key, hd, hcontent, hunparsed, hl, hi, hkey, hv⟩
    obtain ⟨hsource, hdocument⟩ := hunread d (Array.mem_of_getElem? hd) content hcontent
      fun hh => hh hunparsed
    rw [hsource, hparse] at hl
    cases hl
    obtain rfl := List.mem_singleton.1 hi
    have hk : key = "k" := by
      simp only [Inline.Reads, Inline.has_command, Inline.has_span, Inline.not_has_run,
        CommandKind.plain, List.mem_singleton, exists_eq_left, or_false] at hkey
      rcases hkey with hshows | hshows
      · cases hshows with
        | definition hp hname =>
          obtain rfl := List.mem_singleton.1 hp
          exact hname (by decide)
        | parameter hp => cases hp
      · cases hshows with
        | span hi hshows =>
          obtain rfl := List.mem_singleton.1 hi
          cases hshows
    have hfound : c.lookup? "k" (some ⟨0⟩) = some ⟨2⟩ := by decide +kernel
    rw [hk, hdocument, hfound] at hv
    exact (Option.some.inj hv).symm
  have hmay : ∀ z, c.MayConsult ⟨3⟩ z → c.RendersAlike c' z := by
    rintro z ⟨w, v, -, hv, hz⟩
    obtain rfl := hreads hv
    obtain ⟨d, hd, hk⟩ : ∃ d, c.definition? ⟨2⟩ = some d ∧ d.kind = .integer 5 := by
      obtain ⟨references, kind, hd, -, hk⟩ := hextends.old (x := ⟨2⟩) rfl
      cases hk with
      | contents => exact ⟨_, hd, rfl⟩
    have hcontents : d.kind.contents = [] := by rw [hk]; rfl
    rcases hz.cases_head with rfl | ⟨y, hy, -⟩
    · exact hpasses.converts.rendersAlike_of_value hd hcontents
    · have haimed : d.kind.IsAimed := by rw [hk]; rintro _ ⟨⟩
      exact absurd hy (not_mayShow_of_value hd hcontents (by rw [hk]; rfl) haimed)
  have halike : ∀ z, c.Consults ⟨3⟩ z → c.RendersAlike c' z :=
    fun z => hpasses.converts.rendersAlike_of_consults hmay
  have hends : (Call.commands ⟨3⟩).Ends c (.ok ()) ((Call.commands ⟨3⟩).run 4 c) :=
    Call.ends_run (by decide +kernel)
  obtain ⟨c₁', hends', htexts⟩ := (commands_after_fonts hbuilt h hcalls .refl hpasses
    (fun z hz => ⟨fun _ => rfl, halike z hz⟩) _ _).1 ⟨_, hends, rfl⟩
  exact ⟨c₀, c, c', _, c₁', _, hbuilt, h, hcalls, hfonts, halike, by decide +kernel,
    by decide +kernel, hends, hends', by decide +kernel, htexts⟩

/-- A stanza reads its key off another one, which is in a legacy font.  The font pass of that one
    rewords the key, and the command pass of the stanza fails after it, where it ended with a value
    before. -/
theorem commands_after_fonts_of_reading :
    ∃ c₀ c c' c₁ c₁' : Context, ∃ e, c₀.IsBuilt ∧
      Session c₀ [.call (.commands ⟨1⟩) (.ok ())] c ∧
      (∀ d ∈ c.definition? ⟨3⟩, ∀ content ∈ d.kind.contents, ¬ content.IsHandled) ∧
      (Call.fonts ⟨1⟩).Ends c (.ok ()) c' ∧ (Call.commands ⟨3⟩).Ends c (.ok ()) c₁ ∧
      (Call.commands ⟨3⟩).Ends c' (.error e) c₁' ∧ e.cause.kind = .definitionNotFound := by
  let c₀ := [Edit.addDocument "d" "D", .addVersion ⟨0⟩ (.ofKnown .coptic) none,
    .addStanza ⟨0⟩ (some "y") "a", .setFont ⟨1⟩ "CS Avva Shenouda",
    .addStanza ⟨0⟩ (some "a") "x",
    .addStanza ⟨0⟩ none "\\def\x7b\\def\x7by\x7d\x7d"].foldl Edit.apply (.new {})
  let c := (Call.commands ⟨1⟩).run 4 c₀
  let c' := (Call.fonts ⟨1⟩).run 4 c
  have hkind : (((Call.commands ⟨3⟩).pass 4).answer? c').map (fun answer =>
      match answer.1 with
      | .error e => some e.cause.kind
      | .ok _ => none) = some (some .definitionNotFound) := by decide +kernel
  obtain ⟨⟨r, c₁'⟩, hfails, hr⟩ := Option.map_eq_some_iff.1 hkind
  rcases r with e | ⟨⟨⟩⟩
  · exact ⟨c₀, c, c', _, c₁', e, (Context.isBuilt_new {}).edits (by decide +kernel),
      .call .start (Call.ends_run (by decide +kernel)), by decide +kernel,
      Call.ends_run (by decide +kernel), Call.ends_run (n := 4) (by decide +kernel), ⟨4, hfails⟩,
      Option.some.inj hr⟩
  · cases hr

end Rubric
