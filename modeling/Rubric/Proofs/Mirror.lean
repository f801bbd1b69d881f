/-
  Rubric — command passes side by side.

  A command pass looks at little of its context: keys, settings, whether texts
  are handled, and the texts that parameters render as.  From contexts that
  agree in this two passes do the same.

  * `Definition.outline`: a definition as far as passes of other nodes look at it;
  * `Engine.GoesOnTo`: the passes of other nodes that come behind the text of a node;
  * `Mirrors handle handle' … R`: contexts that `R` joins agree in what is looked at,
    and what is done to both of them keeps them joined;
  * **`Mirrors.echoes_commandPass`**: the pass of a node echoes that from the other
    context, if the passes of other nodes do.
-/
import Rubric.Proofs.Concur

namespace Rubric

open Text

/-! ## Outlines -/

/-- The text without its inlines, if it is handled. -/
def Content.outline (content : Content) : Content :=
  match content.stage with
  | .unparsed => content
  | .commandsResolved _ | .fullyResolved _ => { content with stage := .commandsResolved [] }

/-- What the definition holds, without the inlines of handled texts. -/
def DefinitionKind.outline (kind : DefinitionKind) : DefinitionKind :=
  kind.mapContents Content.outline

/-- The definition without references and without the inlines of handled texts. -/
def Definition.outline (d : Definition) : Definition :=
  { d with references := [], kind := d.kind.outline }

/-- Texts of one outline are both unread, with one source, or both handled. -/
theorem Content.eq_of_outline_eq {content content' : Content}
    (h : content'.outline = content.outline) :
    content.stage = .unparsed ∧ content' = content ∨ content.IsHandled ∧ content'.IsHandled := by
  rcases content with ⟨source, _ | _ | _⟩ <;> rcases content' with ⟨source', _ | _ | _⟩ <;>
    simp_all [outline, IsHandled]

theorem Content.outline_resolveFonts (content : Content) (f : Inline → Inline) :
    (content.resolveFonts f).outline = content.outline := by
  rcases content with ⟨source, _ | _ | _⟩ <;> rfl

namespace DefinitionKind

variable {kind kind' : DefinitionKind} (h : kind'.outline = kind.outline)
include h

/-- Kinds of one outline are of one constructor and differ in their texts only. -/
theorem eq_of_outline_eq :
    (∃ body body' : Section, kind = .section body ∧ kind' = .section body' ∧
      body'.children = body.children ∧
      body'.title.map Content.outline = body.title.map Content.outline) ∨
    (∃ content content' : Content, content'.outline = content.outline ∧
      (kind = .stanza content ∧ kind' = .stanza content' ∨
        kind = .paragraph content ∧ kind' = .paragraph content')) ∨
    (kind' = kind ∧ kind.contents = [] ∧ ∀ body, kind ≠ .section body) := by
  rcases kind with ⟨title, children⟩ | content | content | _ | _ | _ | _ <;>
    rcases kind' with ⟨title', children'⟩ | content' | content' | _ | _ | _ | _
  case stanza.stanza => exact Or.inr (Or.inl ⟨content, content', stanza.inj h, Or.inl ⟨rfl, rfl⟩⟩)
  case paragraph.paragraph =>
    exact Or.inr (Or.inl ⟨content, content', paragraph.inj h, Or.inr ⟨rfl, rfl⟩⟩)
  all_goals simp_all [outline, mapContents, contents]

theorem multilingual_of_outline_eq {runs : RunCollection} :
    kind' = .multilingual runs ↔ kind = .multilingual runs := by
  rcases eq_of_outline_eq h with ⟨_, _, rfl, rfl, -⟩ |
    ⟨_, _, -, ⟨rfl, rfl⟩ | ⟨rfl, rfl⟩⟩ | ⟨rfl, -⟩ <;> simp

theorem boolean_of_outline_eq {value : Bool} : kind' = .boolean value ↔ kind = .boolean value := by
  rcases eq_of_outline_eq h with ⟨_, _, rfl, rfl, -⟩ |
    ⟨_, _, -, ⟨rfl, rfl⟩ | ⟨rfl, rfl⟩⟩ | ⟨rfl, -⟩ <;> simp

end DefinitionKind

/-! ## Passes behind a text -/

/-- The command pass of the node from `c` goes on to that of `y`, from the second context: `y` is
    the target of the node, which its key may have led to just before, or a child of it, and then
    its pass comes after those of the title and of the children before it, however they end. -/
inductive Engine.GoesOnTo (handle : DefinitionId → Engine Unit) (id : DefinitionId) (c : Context) :
    DefinitionId → Context → Prop
  | target {d : Definition} {y : DefinitionId} :
      c.definition? id = some d → d.kind.target? = some y → GoesOnTo handle id c y c
  | found {d : Definition} {reference : PartReference} {y : DefinitionId} :
      c.definition? id = some d → d.kind = .partReference reference → reference.target = none →
      c.lookup? reference.targetKey d.document = some y →
      GoesOnTo handle id c y ((c.addReference y id).setTarget id y)
  | child {d : Definition} {before after : List DefinitionId} {y : DefinitionId}
      {r r' : Except Error Unit} {c₁ c₂ : Context} :
      c.definition? id = some d → d.kind.children = before ++ y :: after →
      (runAll (d.kind.contents.map (resolveContent handle id))).Gives c r c₁ →
      (runAll (before.map handle)).Gives c₁ r' c₂ → GoesOnTo handle id c y c₂

/-- Contexts that `R` joins agree in what the command passes of `visits` look at; the passes that
    these start are those of `nodes`, run by `handle` in the first run and by `handle'` in the
    second one, and keep the contexts joined.  Inlines whose execution begins with tags in two
    contexts satisfy `admits`; what becomes of those that are read as they render is `readable`. -/
structure Mirrors (handle handle' : DefinitionId → Engine Unit)
    (visits nodes : DefinitionId → Context → Context → Prop)
    (admits : Scope → Tags → List Inline → Context → Context → Prop)
    (readable : Context → Context → Inline → Prop) (R : Context → Context → Prop) : Prop where
  lookup? : ∀ {c c'}, R c c' → ∀ key document, c'.lookup? key document = c.lookup? key document
  commands : ∀ {c c'}, R c c' → c'.commands = c.commands
  analyzers : ∀ {c c'}, R c c' → c'.analyzers = c.analyzers
  equivalence : ∀ {c c'}, R c c' → c'.settings.equivalence = c.settings.equivalence
  lineSeparator : ∀ {c c'}, R c c' → c'.settings.lineSeparator = c.settings.lineSeparator
  syllableSeparator : ∀ {c c'}, R c c' →
    c'.settings.syllableSeparator = c.settings.syllableSeparator
  effectiveTags? : ∀ {c c'}, R c c' → ∀ id, c'.effectiveTags? id = c.effectiveTags? id
  outline : ∀ {c c'}, R c c' → ∀ id,
    (c'.definition? id).map Definition.outline = (c.definition? id).map Definition.outline
  counter : ∀ {c c'}, R c c' → ∀ document,
    (c'.footnoteList document).counter = (c.footnoteList document).counter
  /-- Parameters that are read as they render have the same text. -/
  text : ∀ {c c' p s}, R c c' → readable c c' p → c.inlineText? p = some s →
    c'.inlineText? p = some s
  readable_of_core : ∀ {c c' c₁ c₁' p}, readable c c' p → c₁.core = c.core → c₁'.core = c'.core →
    readable c₁ c₁' p
  inlineSegments? : ∀ {c c' tags p segments}, R c c' →
    c.inlineSegments? tags p = some segments →
    ∃ segments', c'.inlineSegments? tags p = some segments' ∧ Agrees R c c' segments segments'
  segments? : ∀ {c c' id segments}, R c c' → c.segments? id = some segments →
    ∃ segments', c'.segments? id = some segments' ∧ Agrees R c c' segments segments'
  reference : ∀ {c c'}, R c c' → ∀ definition user,
    R (c.addReference definition user) (c'.addReference definition user)
  number : ∀ {c c'}, R c c' → ∀ document,
    R (c.modifyFootnotes document fun list => { list with counter := list.counter + 1 })
      (c'.modifyFootnotes document fun list => { list with counter := list.counter + 1 })
  boolean : ∀ {c c'}, R c c' → ∀ (value : Bool) {key}, key = (if value then "True" else "False") →
    (c'.addBoolean none key value).1 = (c.addBoolean none key value).1 ∧
      R (c.addBoolean none key value).2 (c'.addBoolean none key value).2
  route : ∀ {c c'}, R c c' → ∀ document notes,
    R (c.routeFootnotes document notes) (c'.routeFootnotes document notes)
  /-- What the source of a text has become takes its place. -/
  handled : ∀ {c c'}, R c c' → ∀ id inlines,
    R (c.modifyContent id fun content => content.resolveCommands inlines)
      (c'.modifyContent id fun content => content.resolveCommands inlines)
  target : ∀ {c c'}, R c c' → ∀ id target, R (c.setTarget id target) (c'.setTarget id target)
  /-- What a pass goes on to are the passes of nodes. -/
  goesOnTo : ∀ {c c' id y c₁ c₁'}, visits id c c' → R c c' → Engine.GoesOnTo handle id c y c₁ →
    Engine.GoesOnTo handle' id c' y c₁' → R c₁ c₁' → nodes y c₁ c₁'
  /-- What a source is read as may be executed. -/
  source : ∀ {c c' id d content inlines tags}, visits id c c' → R c c' →
    c.definition? id = some d → content ∈ d.kind.contents → content.stage = .unparsed →
    Markup.parse c.commands content.source = .ok inlines → c.effectiveTags? id = some tags →
    admits { owner := id, document := d.document } tags inlines c c'
  span : ∀ {scope tags l own rest c c'}, admits scope tags (.span l own :: rest) c c' →
    admits scope (own.inherit tags) l c c'
  later : ∀ {scope tags i rest i' notes c c' c₁ c₁'}, admits scope tags (i :: rest) c c' →
    (i.execute handle scope tags).Gives c (.ok (i', notes)) c₁ →
    (i.execute handle' scope tags).Gives c' (.ok (i', notes)) c₁' → R c₁ c₁' →
    admits scope tags rest c₁ c₁'
  executes : ∀ {scope tags name kind ps own rest tags' l c c' c₁ c₁'},
    admits scope tags (.command name kind ps own .pending :: rest) c c' →
    Invocation.Executes handle { name, scope, tags := own.inherit tags } kind ps c tags' l c₁ →
    Invocation.Executes handle' { name, scope, tags := own.inherit tags } kind ps c' tags' l c₁' →
    R c₁ c₁' → admits scope tags' l c₁ c₁'
  /-- The passes that a command runs are those of nodes. -/
  inserts : ∀ {scope tags name kind ps own rest c c' c₁ c₁' y},
    admits scope tags (.command name kind ps own .pending :: rest) c c' → R c c' →
    Invocation.Inserts handle { name, scope, tags := own.inherit tags } kind ps c y c₁ →
    Invocation.Inserts handle' { name, scope, tags := own.inherit tags } kind ps c' y c₁' →
    R c₁ c₁' → nodes y c₁ c₁'
  /-- What becomes of the parameters that a command reads as they render. -/
  reads : ∀ {scope tags name kind ps own rest p c c' c₁ c₁'},
    admits scope tags (.command name kind ps own .pending :: rest) c c' → R c c' →
    Invocation.Reads handle { name, scope, tags := own.inherit tags } kind ps c p c₁ →
    Invocation.Reads handle' { name, scope, tags := own.inherit tags } kind ps c' p c₁' →
    R c₁ c₁' → readable c₁ c₁' p

namespace Mirrors

open Engine

variable {handle handle' : DefinitionId → Engine Unit}
  {visits nodes : DefinitionId → Context → Context → Prop}
  {admits : Scope → Tags → List Inline → Context → Context → Prop}
  {readable : Context → Context → Inline → Prop} {R : Context → Context → Prop}
  {rigor : Rigor} {c c' : Context} (h : Mirrors handle handle' visits nodes admits readable R)
include h

/-! ## Reading -/

theorem definition {id : DefinitionId} {d : Definition} (hR : R c c')
    (hd : c.definition? id = some d) :
    ∃ d', c'.definition? id = some d' ∧ d'.key = d.key ∧ d'.document = d.document ∧
      d'.kind.outline = d.kind.outline := by
  have ho := h.outline hR id
  rw [hd, Option.map_some] at ho
  obtain ⟨d', hd', he⟩ := Option.map_eq_some_iff.1 ho
  simp only [Definition.outline, Definition.mk.injEq] at he
  exact ⟨d', hd', he.1, he.2.2.1, he.2.2.2.2.2.2⟩

/-- Contexts that the command pass takes for the same are so for commands. -/
theorem concurs : Concurs handle handle' nodes admits (fun _ _ => True) readable
    (fun _ _ _ => True) R where
  lookup? := h.lookup?
  analyzers := h.analyzers
  equivalence := h.equivalence
  lineSeparator := h.lineSeparator
  syllableSeparator := h.syllableSeparator
  definition hR hd := by
    obtain ⟨d', hd', -, -, hk⟩ := h.definition hR hd
    exact ⟨d', hd', fun _ => DefinitionKind.multilingual_of_outline_eq hk,
      fun _ => DefinitionKind.boolean_of_outline_eq hk⟩
  absent {c c' id} hR hd := by
    have ho := h.outline hR id
    rw [hd, Option.map_none] at ho
    exact Option.map_eq_none_iff.1 ho
  text := h.text
  readable_of_core := h.readable_of_core
  inlineSegments? hR _ := h.inlineSegments? hR
  segments? _ _ _ _ := h.segments?
  reference := h.reference
  counter {_ _ scope} _ hR := h.counter hR scope.document
  number {_ _ scope} _ hR := h.number hR scope.document
  boolean _ := h.boolean
  span := h.span
  later := h.later
  executes := h.executes
  uses _ := trivial
  inserts := h.inserts
  reads := h.reads
  converts _ _ _ _ _ _ _ := trivial

section
variable (hh : ∀ id {c c'}, nodes id c c' → R c c' →
  Echoes rigor R ((handle id).answer? c) ((handle' id).answer? c'))
include hh

/-! ## Nodes -/

theorem echoes_resolveSource {id : DefinitionId} {d : Definition} {content : Content}
    (hid : visits id c c') (hd : c.definition? id = some d) (hmem : content ∈ d.kind.contents)
    (hunparsed : content.stage = .unparsed) (hR : R c c') :
    Echoes rigor R ((resolveSource handle id content.source).answer? c)
      ((resolveSource handle' id content.source).answer? c') := by
  refine .get_bind ?_
  rw [h.commands hR, h.effectiveTags? hR]
  refine (echoes_ofExcept _ hR).bind_of_both fun written c₁ c₁' hwritten hwritten' _ => ?_
  obtain ⟨hwritten, rfl⟩ := gives_ofExcept_ok.1 hwritten
  obtain ⟨-, rfl⟩ := gives_ofExcept_ok.1 hwritten'
  refine (echoes_ofOption (fun _ ht => ht) hR).bind_of_both fun tags c₂ c₂' htags htags' _ => ?_
  obtain ⟨_, htags, he, rfl⟩ := gives_ofOption.1 htags
  cases he
  obtain ⟨_, -, -, rfl⟩ := gives_ofOption.1 htags'
  refine .definition_bind fun d₂ hd₂ => ?_
  cases hd.symm.trans hd₂
  obtain ⟨d', hd', -, hdocument, -⟩ := h.definition hR hd
  refine ⟨d', hd', ?_⟩
  rw [hdocument]
  have hadmits := h.source hid hR hd hmem hunparsed hwritten htags
  refine (h.concurs.echoes_executeList hh hadmits hR).bind fun out _ _ _ hR => ?_
  refine (echoes_modify (h.route hR _ _)).bind fun _ _ _ _ hR => ?_
  exact echoes_pure _ hR

theorem echoes_resolveContent {id : DefinitionId} {d : Definition} {content content' : Content}
    (hid : visits id c c') (hd : c.definition? id = some d) (hmem : content ∈ d.kind.contents)
    (ho : content'.outline = content.outline) (hR : R c c') :
    Echoes rigor R ((resolveContent handle id content).answer? c)
      ((resolveContent handle' id content').answer? c') := by
  rcases Content.eq_of_outline_eq ho with ⟨hunparsed, rfl⟩ | ⟨hc, hc'⟩
  · unfold resolveContent
    rw [hunparsed]
    refine (h.echoes_resolveSource hh hid hd hmem hunparsed hR).bind fun l _ _ _ hR₁ => ?_
    exact echoes_modify (h.handled hR₁ id l)
  · rw [resolveContent_of_isHandled handle id hc, resolveContent_of_isHandled handle' id hc']
    exact echoes_pure _ hR

/-- The children of a node are handled alike, from where its title has been in both runs. -/
theorem echoes_children {id : DefinitionId} {d d' : Definition} {r : Except Error Unit}
    {c₁ c₁' : Context} (hid : visits id c c') (hR : R c c') (hd : c.definition? id = some d)
    (hd' : c'.definition? id = some d') (hchildren : d'.kind.children = d.kind.children)
    (htitle : (runAll (d.kind.contents.map (resolveContent handle id))).Gives c r c₁)
    (htitle' : (runAll (d'.kind.contents.map (resolveContent handle' id))).Gives c' r c₁')
    (hR₁ : R c₁ c₁') :
    Echoes rigor R ((runAll (d.kind.children.map handle)).answer? c₁)
      ((runAll (d.kind.children.map handle')).answer? c₁') := by
  refine .runAll_of_both (fun before y after hy {r c₂ c₂'} hbefore hbefore' hR₂ => hh y ?_ hR₂) hR₁
  exact h.goesOnTo hid hR (.child hd hy htitle hbefore)
    (.child hd' (hchildren.trans hy) htitle' hbefore') hR₂

/-- **The command pass of a node is an echo**, if the passes of other nodes are. -/
theorem echoes_commandPass {id : DefinitionId} (hid : visits id c c') (hR : R c c') :
    Echoes rigor R ((commandPass handle id).answer? c) ((commandPass handle' id).answer? c') := by
  refine .definition_bind fun d hd => ?_
  obtain ⟨d', hd', -, hdocument, hk⟩ := h.definition hR hd
  refine ⟨d', hd', ?_⟩
  rcases DefinitionKind.eq_of_outline_eq hk with
    ⟨body, body', hb, hb', hchildren, htitle⟩ | ⟨content, content', ho, hkinds⟩ |
    ⟨he, -, hsection⟩
  · have hparts : ∀ {r c₁ c₁'},
        (runAll (d.kind.contents.map (resolveContent handle id))).Gives c r c₁ →
        (runAll (d'.kind.contents.map (resolveContent handle' id))).Gives c' r c₁' → R c₁ c₁' →
        Echoes rigor R ((runAll (d.kind.children.map handle)).answer? c₁)
          ((runAll (d.kind.children.map handle')).answer? c₁') :=
      h.echoes_children hh hid hR hd hd' (by rw [hb, hb']; exact hchildren)
    rw [hb, hb'] at hparts
    rw [hb, hb']
    dsimp only
    rw [hchildren]
    simp only [DefinitionKind.contents] at hparts
    rcases ht : body.title with _ | title <;> rcases ht' : body'.title with _ | title' <;>
      rw [ht, ht'] at htitle hparts <;> simp only [Option.map_some, Option.map_none] at htitle
    · exact hparts (gives_pure.2 ⟨rfl, rfl⟩) (gives_pure.2 ⟨rfl, rfl⟩) hR
    · cases htitle
    · cases htitle
    · have hmem : title ∈ d.kind.contents := by simp [hb, DefinitionKind.contents, ht]
      have hcontent := h.echoes_resolveContent hh hid hd hmem (Option.some.inj htitle) hR
      refine hcontent.runAll_cons_of_both fun hx hx' => ?_
      exact hparts (gives_runAll_singleton.2 hx) (gives_runAll_singleton.2 hx')
  · have hmem : content ∈ d.kind.contents := by
      rcases hkinds with ⟨hb, -⟩ | ⟨hb, -⟩ <;> rw [hb] <;> exact List.mem_singleton_self _
    rcases hkinds with ⟨hb, hb'⟩ | ⟨hb, hb'⟩ <;> rw [hb, hb'] <;>
      exact h.echoes_resolveContent hh hid hd hmem ho hR
  · rw [he]
    split
    case h_1 content hb | h_2 content hb =>
      exact h.echoes_resolveContent hh hid hd (by simp [hb, DefinitionKind.contents]) rfl hR
    case h_3 body hb => exact absurd hb (hsection body)
    case h_4 reference hb =>
      split
      · rename_i target ht
        have ht : d.kind.target? = some target := by rw [hb]; exact ht
        exact hh target (h.goesOnTo hid hR (.target hd ht) (.target hd' (he ▸ ht)) hR) hR
      · rename_i hnone
        refine .get_bind (.definition_bind fun d₁ hd₁ => ?_)
        cases hd.symm.trans hd₁
        refine ⟨d', hd', ?_⟩
        rw [hdocument, h.concurs.lookup_eq hR]
        refine (echoes_ofExcept _ hR).bind_of_both fun target c₁ c₁' htarget htarget' _ => ?_
        obtain ⟨hl, rfl⟩ := gives_ofExcept_ok.1 htarget
        obtain ⟨-, rfl⟩ := gives_ofExcept_ok.1 htarget'
        replace hl := Context.lookup?_of_lookup hl
        have hR₁ := h.target (h.reference hR target id) id target
        have hnode := h.goesOnTo hid hR (.found hd hb hnone hl)
          (.found hd' (he.trans hb) hnone (by rw [h.lookup? hR, hdocument, hl])) hR₁
        refine (echoes_modify hR₁).bind_of_both fun _ _ _ hset hset' hR₁ => ?_
        obtain ⟨-, rfl⟩ := gives_modify.1 hset
        obtain ⟨-, rfl⟩ := gives_modify.1 hset'
        exact hh target hnode hR₁
    case h_5 | h_6 | h_7 => exact echoes_pure _ hR

end

end Mirrors

/-! ## The font pass -/

namespace Engine

variable {handle handle' : DefinitionId → Engine Unit} {R : Context → Context → Prop}
  {rigor : Rigor} {c c' : Context}
  (hdefinition : ∀ {c c'}, R c c' → ∀ id, c'.definition? id = c.definition? id)
  (hconvert : ∀ id inlines {c c'}, R c c' → Echoes rigor R
    ((convertContent id inlines).answer? c) ((convertContent id inlines).answer? c'))
  (hh : ∀ id {c c'}, R c c' → Echoes rigor R ((handle id).answer? c) ((handle' id).answer? c'))
include hdefinition hconvert hh

omit hdefinition hh in
theorem echoes_convert {targets targets' : List DefinitionId → Engine Unit}
    (ht : ∀ ids {c c'}, R c c' →
      Echoes rigor R ((targets ids).answer? c) ((targets' ids).answer? c'))
    (id : DefinitionId) (content : Content) (hR : R c c') :
    Echoes rigor R ((convert targets id content).answer? c)
      ((convert targets' id content).answer? c') := by
  unfold convert
  split
  · exact echoes_fail _ hR
  · exact echoes_pure _ hR
  · exact (ht _ hR).bind fun _ _ _ _ hR => hconvert id _ hR

/-- **The font pass of a node is an echo**, if the passes of other nodes are, and so are
    conversions. -/
theorem echoes_fontPass (id : DefinitionId) (hR : R c c') :
    Echoes rigor R ((fontPass handle id).answer? c) ((fontPass handle' id).answer? c') := by
  have hparts : ∀ (ids : List DefinitionId) {c c'}, R c c' → Echoes rigor R
      ((runAll (ids.map handle)).answer? c) ((runAll (ids.map handle')).answer? c') :=
    fun ids {_ _} hR => .runAll (fun y _ {_ _} hR => hh y hR) hR
  refine .definition_bind fun d hd => ⟨d, (hdefinition hR id).trans hd, ?_⟩
  split
  · exact echoes_convert hconvert (fun ids {_ _} hR =>
      .forM (fun t _ {_ _} hR => hh t hR) hR) id _ hR
  · exact echoes_convert hconvert (fun ids {_ _} hR =>
      .forM (fun t _ {_ _} hR => hh t hR) hR) id _ hR
  · rename_i body hb
    rcases body.title with _ | title
    · exact hparts body.children hR
    · exact (echoes_convert hconvert (fun ids {_ _} hR => hparts ids hR) id title hR).runAll_cons
        fun {_ _} hR => hparts body.children hR
  · split
    · exact hh _ hR
    · exact echoes_fail _ hR
  all_goals exact echoes_pure _ hR

end Engine

end Rubric
