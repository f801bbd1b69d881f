/-
  Rubric — documents that are kept apart.

  A text leads to definitions of its own document, and to those of no document,
  which all documents share.  If no command makes truth values, and none draws a
  number where there is no document, a command pass changes nothing that belongs
  to another document.

  * `Context.IsParted`: keys, parts, targets and executed commands lead where they
    may, and commands stay in their document; **`IsParted.of_built`**: when a built
    context is so;
  * `Engine.KeepsParted handle`: passes that keep documents apart;
    **`keepsParted_handleCommands`**: command passes do.
-/
import Rubric.Proofs.Keys
import Rubric.Proofs.Moves
import Rubric.Proofs.Nested
import Rubric.Proofs.Substitution

namespace Rubric

open Context

variable {c c' c₁ : Context} {id x y : DefinitionId} {document : Option DocumentId}

/-! ## Contexts of which the documents are kept apart -/

/-- Commands of the kind change nothing outside the document: they make no truth values, and where
    there is no document they draw no numbers. -/
def CommandKind.StaysIn (document : Option DocumentId) (kind : CommandKind) : Prop :=
  kind ≠ .boolean ∧ (document = none → kind ≠ .footnote)

namespace Context

/-- There is a definition of the number, and `P` holds of its document. -/
def Lies (c : Context) (P : Option DocumentId → Prop) (x : DefinitionId) : Prop :=
  ∃ d, c.definition? x = some d ∧ P d.document

/-- The definition is one of the document, or of no document. -/
def Sees (c : Context) (document : Option DocumentId) (y : DefinitionId) : Prop :=
  c.Lies (fun d => d = document ∨ d = none) y

/-- What a definition of the document holds leads to definitions that the document sees: to parts
    in the document, and to the target that a key leads to. -/
structure Encloses (c : Context) (document : Option DocumentId) (kind : DefinitionKind) : Prop where
  targets : ∀ y ∈ kind.targets, c.Sees document y
  children : ∀ y ∈ kind.children, c.Lies (· = document) y
  aims : ∀ {reference t}, kind = .partReference reference → reference.target = some t →
    c.lookup? reference.targetKey document = some t

/-- No pass is refused, commands stay in the document of their text, and whatever leads anywhere
    leads to what its document sees. -/
structure IsParted (c : Context) : Prop where
  sound : c.IsSound
  unlimited : c.settings.depthLimit = none
  uses : ∀ {x d content written}, c.definition? x = some d → content ∈ d.kind.contents →
    Markup.parse c.commands content.source = .ok written →
    ∀ i ∈ written, i.Uses (CommandKind.StaysIn d.document)
  lookup? : ∀ {key document y}, c.lookup? key document = some y → c.Sees document y
  encloses : ∀ {x d}, c.definition? x = some d → c.Encloses d.document d.kind

section
variable (h : c'.unresolved = c.unresolved)
include h

theorem Lies.congr {P : Option DocumentId → Prop} (hx : c.Lies P x) : c'.Lies P x := by
  obtain ⟨d, hd, hP⟩ := hx
  obtain ⟨d', hd', he⟩ := definition?_of_unresolved_eq h.symm hd
  have hdocument : d'.unresolved.document = d.unresolved.document := by rw [he]
  exact ⟨d', hd', (show d'.document = d.document from hdocument) ▸ hP⟩

/-- Where definitions lie was written. -/
theorem Encloses.congr {kind : DefinitionKind} (hk : c.Encloses document kind) :
    c'.Encloses document kind where
  targets y hy := (hk.targets y hy).congr h
  children y hy := (hk.children y hy).congr h
  aims hreference ht := (lookup?_of_unresolved_eq h _ _).trans (hk.aims hreference ht)

/-- Whether documents are kept apart depends on what was written, and on where definitions lead. -/
theorem IsParted.of_unresolved_eq (hc : c.IsParted) (hsound : c'.IsSound)
    (hencloses : ∀ {x d'}, c'.definition? x = some d' → c.Encloses d'.document d'.kind) :
    c'.IsParted where
  sound := hsound
  unlimited := by
    rw [settings_of_unresolved_eq h]
    exact hc.unlimited
  uses {x d content written} hd hcontent hwritten := by
    obtain ⟨d₀, hd₀, hdocument, content₀, hcontent₀, hsource⟩ :=
      content_of_unresolved_eq h hd hcontent
    rw [commands_of_unresolved_eq h, ← hsource] at hwritten
    rw [← hdocument]
    exact hc.uses hd₀ hcontent₀ hwritten
  lookup? hl := by
    rw [lookup?_of_unresolved_eq h] at hl
    exact (hc.lookup? hl).congr h
  encloses hd := (hencloses hd).congr h

end

namespace IsParted

/-- All that a definition leads to is seen in its document. -/
theorem links (h : c.IsParted) {d : Definition} (hd : c.definition? x = some d)
    (hy : y ∈ d.kind.links) : c.Sees d.document y := by
  have hencloses := h.encloses hd
  rcases DefinitionKind.mem_links.1 hy with ht | hchild | ht
  · exact hencloses.targets y ht
  · obtain ⟨d', hd', hdocument⟩ := hencloses.children y hchild
    exact ⟨d', hd', Or.inl hdocument⟩
  · obtain ⟨reference, hk, ht⟩ := DefinitionKind.target?_eq_some.1 ht
    exact h.lookup? (hencloses.aims hk ht)

theorem of_core_eq (h : c.IsParted) (he : c'.core = c.core) : c'.IsParted := by
  have hsound : c'.IsSound := (Step.of_core_eq he : Step .commands c c').isSound h.sound
  refine h.of_unresolved_eq (unresolved_of_core_eq he) hsound fun hd' => ?_
  obtain ⟨references, hd⟩ := definition?_of_core_eq he.symm hd'
  have hencloses := h.encloses hd
  exact hencloses

/-- One definition is changed, so that it still leads where it may. -/
theorem modifyKind (h : c.IsParted) {f : DefinitionKind → DefinitionKind}
    (hwritten : ∀ kind, (f kind).unresolved = kind.unresolved)
    (hsound : (c.modifyDefinition id fun d => { d with kind := f d.kind }).IsSound)
    (hf : ∀ {d}, c.definition? id = some d → c.Encloses d.document (f d.kind)) :
    (c.modifyDefinition id fun d => { d with kind := f d.kind }).IsParted := by
  refine h.of_unresolved_eq (unresolved_modifyKind hwritten) hsound fun {x d'} hd' => ?_
  obtain ⟨d, hd, rfl⟩ := definition?_modifyKind hd'
  by_cases he : id = x
  · subst he
    simpa only [if_true] using hf hd
  · simpa only [he, if_false] using h.encloses hd

/-- A text is handled, in which commands lead where they may. -/
theorem resolveCommands (h : c.IsParted) {d : Definition} {l : List Inline}
    (hd : c.definition? id = some d)
    (hsound : (c.modifyContent id fun content => content.resolveCommands l).IsSound)
    (hl : ∀ t ∈ Inline.targets l, c.Sees d.document t) :
    (c.modifyContent id fun content => content.resolveCommands l).IsParted := by
  rw [modifyContent_eq] at hsound ⊢
  refine h.modifyKind (DefinitionKind.unresolved_mapContents fun _ => rfl) hsound
    fun {d'} hd' => ?_
  cases hd.symm.trans hd'
  have hencloses := h.encloses hd
  constructor
  case targets => exact fun y hy => hl y (DefinitionKind.mem_targets_resolveCommands hy)
  case children => exact fun y hy => hencloses.children y (by simpa using hy)
  case aims =>
    intro reference t hk ht
    refine hencloses.aims ?_ ht
    cases hkind : d.kind <;> rw [hkind] at hk <;> first | exact hk | cases hk

/-- A part reference gets its target. -/
theorem setTarget (h : c.IsParted) {d : Definition} {reference : PartReference}
    {target : DefinitionId} (hd : c.definition? id = some d)
    (hk : d.kind = .partReference reference) (hnone : reference.target = none)
    (hl : c.lookup? reference.targetKey d.document = some target) :
    ((c.addReference target id).setTarget id target).IsParted := by
  have hset : Steps .commands c ((c.addReference target id).setTarget id target) :=
    steps_setTarget hd hk hnone
  have hsound := hset.isSound h.sound
  have hcore := h.of_core_eq (c.core_addReference target id)
  obtain ⟨references, hd₁⟩ := definition?_addReference hd target id
  rw [setTarget_eq] at hsound ⊢
  refine hcore.modifyKind (DefinitionKind.unresolved_setTarget target) hsound fun {d'} hd' => ?_
  cases hd₁.symm.trans hd'
  dsimp only
  rw [hk]
  constructor
  case targets => rintro y ⟨⟩
  case children => rintro y ⟨⟩
  case aims =>
    rintro _ t ⟨⟩ ht
    cases ht
    rw [lookup?_addReference]
    exact hl

end IsParted

/-! ## Built contexts -/

/-- No text of a definition that belongs to no document has a footnote. -/
def LooseTextsAreBare (c : Context) : Prop :=
  ∀ d ∈ c.definitions, d.document = none → ∀ content ∈ d.kind.contents,
    ∀ inlines ∈ (Markup.parse c.commands content.source).toOption,
      ∀ i ∈ inlines, i.Uses (· ≠ .footnote)

instance (c : Context) : Decidable c.LooseTextsAreBare :=
  inferInstanceAs (Decidable (∀ d ∈ c.definitions, d.document = none →
    ∀ content ∈ d.kind.contents, ∀ inlines ∈ (Markup.parse c.commands content.source).toOption,
      ∀ i ∈ inlines, i.Uses (· ≠ .footnote)))

/-- **In a built context documents are kept apart** if there is no limit, no truth value is made,
    and no number is drawn outside of documents. -/
theorem IsParted.of_built (hbuilt : c.IsBuilt) (hindexed : c.IsIndexed)
    (hunlimited : c.settings.depthLimit = none) (hbooleans : c.Uses (· ≠ .boolean))
    (hbare : c.LooseTextsAreBare) : c.IsParted where
  sound := hbuilt.isFresh.isSound
  unlimited := hunlimited
  uses {x d content written} hd hcontent hwritten i hi j hj kind hkind := by
    have hmem := Array.mem_of_getElem? hd
    have hread : written ∈ (Markup.parse c.commands content.source).toOption := by
      rw [hwritten]; rfl
    exact ⟨hbooleans d hmem content hcontent written hread i hi j hj kind hkind,
      fun hnone => hbare d hmem hnone content hcontent written hread i hi j hj kind hkind⟩
  lookup? hl := by
    obtain ⟨d, hd, -, hdocument⟩ := hindexed.exists_of_lookup? hl
    exact ⟨d, hd, hdocument⟩
  encloses {x d} hd := by
    refine ⟨fun y hy => ?_, fun y hy => ?_, fun {reference t} hk ht => ?_⟩
    · obtain ⟨content, hcontent, hy⟩ := DefinitionKind.mem_targets.1 hy
      rw [Content.targets_of_unparsed (hbuilt.isFresh.contents hd content hcontent)] at hy
      cases hy
    · obtain ⟨d', hd', -, hdocument⟩ := hbuilt.isFresh.children hd y hy
      exact ⟨d', hd', hdocument⟩
    · have hnone := hbuilt.isFresh.target hd
      rw [hk, DefinitionKind.target?, ht] at hnone
      cases hnone

/-! ## Passes -/

/-- From a context of which the documents are kept apart, this leads to another one, in which
    nothing else is written. -/
def StaysParted (c c' : Context) : Prop :=
  c.IsParted → c'.IsParted ∧ c'.unresolved = c.unresolved

theorem StaysParted.of_core_eq (he : c'.core = c.core) : StaysParted c c' :=
  fun h => ⟨h.of_core_eq he, unresolved_of_core_eq he⟩

theorem composes_staysParted : Engine.Composes StaysParted where
  refl c h := ⟨h, rfl⟩
  trans h h' hc := by
    obtain ⟨hc₁, h₁⟩ := h hc
    obtain ⟨hc₂, h₂⟩ := h' hc₁
    exact ⟨hc₂, h₂.trans h₁⟩

/-- So do commands that stay in their document. -/
theorem permits_staysParted (document : Option DocumentId) :
    Permits (CommandKind.StaysIn document) StaysParted where
  toComposes := composes_staysParted
  warn c warnings := .of_core_eq (c.core_warnAll warnings)
  reference c definition user := .of_core_eq (c.core_addReference definition user)
  number _ c document := .of_core_eq (c.core_modifyFootnotes document _)
  boolean hkind := absurd rfl hkind.1

end Context

namespace Engine

/-- Passes that keep documents apart, and resolve what they end with a value for. -/
structure KeepsParted (handle : DefinitionId → Engine Unit) : Prop where
  resolves : ∀ y, (handle y).Secures IsSound (Steps .commands) fun _ c => c.Resolved y
  parted : ∀ y, (handle y).Moves StaysParted

namespace KeepsParted

variable {handle : DefinitionId → Engine Unit} (hh : KeepsParted handle) {scope : Scope}
include hh

omit hh in
/-- What commands stand for is seen in their document. -/
theorem law (scope : Scope) : Inline.CommandLaw handle scope (CommandKind.StaysIn scope.document)
    IsParted (fun c c' => c'.unresolved = c.unresolved)
    fun c j => ∀ t, j.target? = some t → c.Sees scope.document t := by
  refine .of_targets (fun h ht => ht.congr h) fun {c c' name kind ps tags effect t} hkind hc h
    heffects ht => ?_
  cases heffects with
  | definition _ hl =>
    cases ht
    exact (hc.lookup? hl).congr h
  | sharedBoolean | newBoolean => exact absurd rfl hkind.1
  | _ => cases ht

/-- Execution keeps documents apart, and what is executed leads where it may. -/
theorem executeList {tags : Tags} {l l' : List Inline} {notes : List Footnote}
    (hl : ∀ i ∈ l, i.IsFresh) (hu : ∀ i ∈ l, i.Uses (CommandKind.StaysIn scope.document))
    (hc : c.IsParted) (h : (Inline.executeList handle scope tags l).Gives c (.ok (l', notes)) c') :
    ∀ t ∈ Inline.targets l', c'.Sees scope.document t ∧ c'.Resolved t := by
  have hseen := ((law scope).targets_executeList (permits_staysParted scope.document) hh.parted hl
    hu hc h).2
  have hdone := (isDone_executeList hh.resolves hl hc.sound h).2
  intro t ht
  obtain ⟨i, hi, hti⟩ := Inline.mem_targets_iff.1 ht
  exact ⟨hseen t ht, ((hdone i hi).targets t hti).1⟩

theorem execute {tags : Tags} {i i' : Inline} {notes : List Footnote} (hi : i.IsFresh)
    (hu : i.Uses (CommandKind.StaysIn scope.document)) (hc : c.IsParted)
    (h : (i.execute handle scope tags).Gives c (.ok (i', notes)) c') :
    ∀ t ∈ Inline.targets [i'], c'.Sees scope.document t ∧ c'.Resolved t := by
  have hlist : (Inline.executeList handle scope tags [i]).Gives c (.ok ([i'], notes ++ [])) c' := by
    rw [Inline.executeList, gives_bind_ok]
    refine ⟨_, _, h, ?_⟩
    simp only [Inline.executeList, pure_bind, gives_pure, and_self]
  exact hh.executeList (by simpa using hi) (by simpa using hu) hc hlist

/-- The handling of a text keeps documents apart. -/
theorem resolveContent {d : Definition} {content : Content} {r : Except Error Unit}
    (hd : c.definition? id = some d) (hcontent : content ∈ d.kind.contents)
    (h : (Engine.resolveContent handle id content).Gives c r c') : StaysParted c c' := by
  intro hc
  have hsound := ((steps_resolveContent hh.resolves hc.sound hd hcontent h).1).isSound hc.sound
  rcases gives_resolveContent h with ⟨-, -, rfl⟩ | ⟨hunparsed, r₁, c₁, hsource, hends⟩
  · exact ⟨hc, rfl⟩
  rcases gives_resolveSource hsource with ⟨_, -, rfl, rfl⟩ |
    ⟨written, tags, d', hwritten, -, hd', hl⟩
  · rcases hends with ⟨_, -, -, rfl⟩ | ⟨_, hr, -⟩
    · exact ⟨hc, rfl⟩
    · cases hr
  cases hd.symm.trans hd'
  have hfresh := Markup.isFresh_of_mem_parse hwritten
  have hu := hc.uses hd hcontent hwritten
  rcases hl with ⟨e, rfl, hl⟩ | ⟨l, notes, c₂, rfl, hl, rfl⟩
  · rcases hends with ⟨_, -, -, rfl⟩ | ⟨_, hr, -⟩
    · exact Inline.executeList_moves (permits_staysParted d.document) hh.parted written hu tags
        _ _ _ hl hc
    · cases hr
  · rcases hends with ⟨_, hr, -⟩ | ⟨l', hr, -, rfl⟩ <;> cases hr
    obtain ⟨hc₂, h₂⟩ := Inline.executeList_moves (permits_staysParted d.document) hh.parted written
      hu tags _ _ _ hl hc
    have htargets := hh.executeList hfresh hu hc hl
    have hcore := c₂.core_modifyFootnotes d.document fun list =>
      { list with routed := list.routed ++ notes }
    obtain ⟨d₂, hd₂, he⟩ := definition?_of_unresolved_eq
      ((unresolved_of_core_eq hcore).trans h₂).symm hd
    have hdocument : d₂.document = d.document := congrArg (fun d => d.document) he
    refine ⟨(hc₂.of_core_eq hcore).resolveCommands hd₂ hsound fun t ht => ?_, ?_⟩
    · rw [hdocument]
      exact (htargets t ht).1.congr (unresolved_of_core_eq hcore)
    · exact (unresolved_resolveCommands _ id l).trans ((unresolved_of_core_eq hcore).trans h₂)

end KeepsParted

/-- **Command passes keep documents apart.** -/
theorem keepsParted_handleCommands (n : Nat) : KeepsParted (handleCommands n) where
  resolves := secures_handleCommands n
  parted := by
    refine handleCommands_moves composes_staysParted (fun {c c₁} h hc => ?_)
      (fun {c id target d reference} hd hk hnone hl hc => ?_) (fun n hh => ?_) n
    · obtain ⟨hc₁, h₁⟩ := h (hc.of_core_eq (c.core_atDepth _))
      exact ⟨hc₁.of_core_eq (c₁.core_atDepth _), h₁⟩
    · exact ⟨hc.setTarget hd hk hnone hl, c.unresolved_setTarget id target⟩
    · have hkeeps : KeepsParted (handleCommands n) := ⟨secures_handleCommands n, hh⟩
      exact fun {_ _ _ _ _ _} hd hcontent h => hkeeps.resolveContent hd hcontent h

end Engine

end Rubric
