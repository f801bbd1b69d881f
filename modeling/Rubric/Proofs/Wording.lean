/-
  Rubric — contexts that are built alike.

  Two contexts may be built by the same edits, but for the source texts of nodes of
  one document.  Then they were written alike.

  * `Edit.Rewords document c e e'`: the edits are the same but for a source text, which
    one gives to a node of the document;
  * `Context.BuiltAlike document c c'`: such edits lead to the contexts;
    **`BuiltAlike.writtenAlike`**.
-/
import Rubric.Proofs.Parted
import Rubric.Proofs.Reachable
import Rubric.Proofs.Redaction

namespace Rubric

open Context

variable {c c' : Context} {document : DocumentId} {x id : DefinitionId} {d d' : Definition}

/-! ## What was written -/

/-- What was written of a definition, with texts blank if they are hidden. -/
def DefinitionKind.draft (hidden : Bool) (kind : DefinitionKind) : DefinitionKind :=
  kind.unresolved.mapContents fun content => .ofSource (if hidden then "" else content.source)

/-- A section with one more part. -/
def DefinitionKind.addPart (id : DefinitionId) : DefinitionKind → DefinitionKind
  | .section body => .section { body with children := body.children ++ [id] }
  | kind => kind

/-- The kind with another source text, if it may have one. -/
def DefinitionKind.setSource (source : String) : DefinitionKind → DefinitionKind
  | .section body => .section { body with title := some (.ofSource source) }
  | .stanza _ => .stanza (.ofSource source)
  | .paragraph _ => .paragraph (.ofSource source)
  | kind => kind

theorem DefinitionKind.draft_addPart (hidden : Bool) (id : DefinitionId) (kind : DefinitionKind) :
    (kind.addPart id).draft hidden = (kind.draft hidden).addPart id := by
  cases kind <;> rfl

theorem DefinitionKind.draft_setSource (hidden : Bool) (source : String) (kind : DefinitionKind) :
    (kind.setSource source).draft hidden =
      (kind.draft hidden).setSource (if hidden then "" else source) := by
  cases kind <;> rfl

/-- Definitions were written alike if the same was written of them, but for what is hidden in the
    document. -/
theorem Definition.writtenAlike_iff : d.WrittenAlike document d' ↔
    d'.key = d.key ∧ d'.parent = d.parent ∧ d'.document = d.document ∧ d'.language = d.language ∧
      d'.font = d.font ∧
      d'.kind.draft (d.document = some document) = d.kind.draft (d.document = some document) := by
  have hdraft : ∀ d : Definition, d.unresolved.redact document =
      { d with references := [], kind := d.kind.draft (d.document = some document) } := by
    intro d
    rcases d with ⟨_, _, a, _, _, _, ⟨_ | title, _⟩ | _ | _ | _ | _ | _ | _⟩ <;>
      by_cases ha : a = some document <;>
      simp [redact, unresolved, DefinitionKind.unresolved, DefinitionKind.draft,
        DefinitionKind.mapContents, Content.ofSource, ha]
  rw [WrittenAlike, hdraft, hdraft, Definition.mk.injEq]
  constructor
  · rintro ⟨hkey, hparent, hdocument, hlanguage, hfont, -, hkind⟩
    exact ⟨hkey, hparent, hdocument, hlanguage, hfont, hdocument ▸ hkind⟩
  · rintro ⟨hkey, hparent, hdocument, hlanguage, hfont, hkind⟩
    exact ⟨hkey, hparent, hdocument, hlanguage, hfont, rfl, by rw [hdocument]; exact hkind⟩

namespace Context

/-- Contexts were written alike if their definitions were, and all else in them was written the
    same. -/
theorem writtenAlike_iff : WrittenAlike document c c' ↔
    c'.definitions.size = c.definitions.size ∧
      (∀ x d d', c.definition? x = some d → c'.definition? x = some d' →
        d.WrittenAlike document d') ∧
      c'.documents.map Document.core = c.documents.map Document.core ∧
      c'.globalKeys = c.globalKeys ∧ c'.commands = c.commands ∧ c'.fonts = c.fonts ∧
      c'.analyzers = c.analyzers ∧ c'.settings = c.settings := by
  constructor
  · intro h
    have heq : ∀ {α : Type} (g : Context → α), (∀ c : Context,
        g (c.unresolved.redact document) = g c) → g c' = g c := by
      intro α g hg
      rw [← hg c', h, hg]
    refine ⟨h.size_eq, fun x d d' hd hd' => ?_, ?_, heq globalKeys fun _ => rfl, h.commands_eq,
      h.fonts_eq, h.analyzers_eq, h.settings_eq⟩
    · obtain ⟨_, hd₁, halike⟩ := h.definition? hd
      cases hd'.symm.trans hd₁
      exact halike
    · exact congrArg documents h
  · rintro ⟨hsize, hdefinition, hdocuments, hkeys, hcommands, hfonts, hanalyzers, hsettings⟩
    have hdefinitions :
        (c'.definitions.map Definition.unresolved).map (Definition.redact document) =
          (c.definitions.map Definition.unresolved).map (Definition.redact document) := by
      refine Array.ext (by simp [hsize]) fun i hi' hi => ?_
      simp only [Array.size_map] at hi hi'
      simp only [Array.getElem_map]
      exact hdefinition ⟨i⟩ _ _ (Array.getElem?_eq_getElem hi) (Array.getElem?_eq_getElem hi')
    simp only [WrittenAlike, redact, unresolved, core, Context.mk.injEq, and_true]
    exact ⟨hdefinitions, hdocuments, hkeys, hcommands, hfonts, hanalyzers, hsettings⟩

/-- Changes of one definition are the same if they make the same of it. -/
theorem modifyDefinition_congr {f g : Definition → Definition}
    (h : ∀ d, c.definition? id = some d → f d = g d) :
    c.modifyDefinition id f = c.modifyDefinition id g := by
  simp only [modifyDefinition]
  congr 1
  refine Array.ext (by simp) fun i hi hi' => ?_
  simp only [Array.getElem_modify]
  split
  · rename_i he
    subst he
    exact h _ (Array.getElem?_eq_getElem _)
  · rfl

/-- A change that makes nothing else of a definition. -/
theorem modifyKind_self {g : DefinitionKind → DefinitionKind}
    (h : ∀ d, c.definition? id = some d → g d.kind = d.kind) :
    (c.modifyDefinition id fun d => { d with kind := g d.kind }) = c := by
  rw [modifyDefinition_congr (g := fun d => d) fun d hd => by rw [h d hd]]
  simp only [modifyDefinition]
  congr 1
  exact Array.ext (by simp) fun i hi hi' => by simp [Array.getElem_modify]

/-- What is written when a part is added: the part, and its number in its section. -/
theorem unresolved_addChild (c : Context) (parent : DefinitionId) (key : Option String)
    (kind : DefinitionKind) :
    (c.addChild parent key kind).2.unresolved =
      ((c.addDefinition { key, parent := some parent, kind }
        ((c.definition? parent).bind Definition.document)).2.modifyDefinition parent fun d =>
          { d with kind := d.kind.addPart ⟨c.definitions.size⟩ }).unresolved := by
  unfold addChild
  have hid : (c.addDefinition { key, parent := some parent, kind }
      ((c.definition? parent).bind Definition.document)).1 = ⟨c.definitions.size⟩ := rfl
  dsimp only
  rw [hid]
  generalize (c.addDefinition { key, parent := some parent, kind }
    ((c.definition? parent).bind Definition.document)).2 = c₁
  split
  · rename_i body hb
    obtain ⟨d, hd, hb⟩ := Option.map_eq_some_iff.1 hb
    congr 1
    refine modifyDefinition_congr fun d' hd' => ?_
    cases hd.symm.trans hd'
    rw [hb]
    rfl
  · rename_i other hother hb
    obtain ⟨d, hd, rfl⟩ := Option.map_eq_some_iff.1 hb
    rw [modifyKind_self fun d' hd' => ?_]
    · exact unresolved_of_core_eq rfl
    · cases hd.symm.trans hd'
      cases hk : d.kind <;> first | rfl | exact absurd hk (hother _)
  · rename_i hb
    rw [modifyKind_self fun d' hd' => ?_]
    rw [hd'] at hb
    cases hb

/-- What is written when a source text is set. -/
theorem unresolved_setSourceText (c : Context) (id : DefinitionId) (source : String) :
    (c.setSourceText id source).unresolved = (c.modifyDefinition id fun d =>
      { d with kind := d.kind.setSource source }).unresolved := by
  unfold setSourceText
  rcases hd : c.definition? id with _ | d
  · rw [modifyKind_self fun d' hd' => by rw [hd] at hd'; cases hd']
    rfl
  rw [Option.map_some]
  rcases hk : d.kind with body | content | content | reference | value | value | runs
  case «section» | stanza | paragraph =>
    dsimp only
    congr 1
    refine modifyDefinition_congr fun d' hd' => ?_
    cases hd.symm.trans hd'
    rw [hk]
    rfl
  all_goals
    rw [modifyKind_self fun d' hd' => by
      cases hd.symm.trans hd'
      rw [hk]
      rfl]
    exact unresolved_of_core_eq rfl

namespace WrittenAlike

variable (h : WrittenAlike document c c')
include h

/-- A definition is changed alike. -/
theorem modifyDefinition {f f' : Definition → Definition}
    (hf : ∀ d d', c.definition? id = some d → d.WrittenAlike document d' →
      (f d).WrittenAlike document (f' d')) :
    WrittenAlike document (c.modifyDefinition id f) (c'.modifyDefinition id f') := by
  obtain ⟨hsize, hdefinition, hrest⟩ := writtenAlike_iff.1 h
  refine writtenAlike_iff.2 ⟨?_, fun x d d' hd hd' => ?_, hrest⟩
  · simpa [Context.modifyDefinition] using hsize
  · rw [definition?_modifyDefinition] at hd hd'
    by_cases he : id = x
    · subst he
      rw [if_pos rfl] at hd hd'
      obtain ⟨d₀, hd₀, rfl⟩ := Option.map_eq_some_iff.1 hd
      obtain ⟨d₀', hd₀', rfl⟩ := Option.map_eq_some_iff.1 hd'
      exact hf d₀ d₀' hd₀ (hdefinition id d₀ d₀' hd₀ hd₀')
    · rw [if_neg he] at hd hd'
      exact hdefinition x d d' hd hd'

/-- What a definition holds is changed so that it is written alike. -/
theorem modifyKind {g g' : DefinitionKind → DefinitionKind}
    (hg : ∀ {d kind'}, c.definition? id = some d →
      kind'.draft (d.document = some document) = d.kind.draft (d.document = some document) →
      (g' kind').draft (d.document = some document) =
        (g d.kind).draft (d.document = some document)) :
    WrittenAlike document (c.modifyDefinition id fun d => { d with kind := g d.kind })
      (c'.modifyDefinition id fun d => { d with kind := g' d.kind }) := by
  refine h.modifyDefinition fun d d' hd halike => ?_
  obtain ⟨hkey, hparent, hdocument, hlanguage, hfont, hkind⟩ := Definition.writtenAlike_iff.1 halike
  exact Definition.writtenAlike_iff.2
    ⟨hkey, hparent, hdocument, hlanguage, hfont, hg hd hkind⟩

/-- A document is changed alike. -/
theorem modifyDocument {g : Document → Document}
    (hg : ∀ a b : Document, a.core = b.core → (g a).core = (g b).core) (i : DocumentId) :
    WrittenAlike document (c.modifyDocument i g) (c'.modifyDocument i g) := by
  obtain ⟨hsize, hdefinition, hdocuments, hrest⟩ := writtenAlike_iff.1 h
  refine writtenAlike_iff.2 ⟨hsize, hdefinition, ?_, hrest⟩
  refine Array.ext (by simpa [Context.modifyDocument] using congrArg Array.size hdocuments)
    fun j hj' hj => ?_
  simp only [Context.modifyDocument, Array.size_map, Array.size_modify] at hj hj'
  have hcore : c'.documents[j].core = c.documents[j].core := by
    have hj₁ := congrArg (fun documents : Array Document => documents[j]?) hdocuments
    simpa [Array.getElem?_eq_getElem, hj, hj'] using hj₁
  simp only [Context.modifyDocument, Array.getElem_map, Array.getElem_modify]
  split
  · exact hg _ _ hcore
  · exact hcore

/-- A key is registered alike. -/
theorem registerKey (a : Option DocumentId) (key : String) (id : DefinitionId) :
    WrittenAlike document (c.registerKey a key id) (c'.registerKey a key id) := by
  have hloose : ∀ {c c' : Context}, WrittenAlike document c c' → WrittenAlike document
      { c with globalKeys := c.globalKeys.insert key id }
      { c' with globalKeys := c'.globalKeys.insert key id } := by
    intro c c' h
    obtain ⟨hsize, hdefinition, hdocuments, hkeys, hrest⟩ := writtenAlike_iff.1 h
    exact writtenAlike_iff.2 ⟨hsize, hdefinition, hdocuments, by rw [hkeys], hrest⟩
  have hscope : ∀ {c c' : Context}, WrittenAlike document c c' → ∀ i, WrittenAlike document
      (c.modifyDocument i fun d => { d with keys := d.keys.insert key id })
      (c'.modifyDocument i fun d => { d with keys := d.keys.insert key id }) := by
    refine fun h i => h.modifyDocument (fun a b he => ?_) i
    rcases a with ⟨_, _, _, _, _, _⟩
    rcases b with ⟨_, _, _, _, _, _⟩
    simp_all [Document.core]
  unfold Context.registerKey
  -- warnings are no part of what was written
  rcases (c.keysOf a).get? key with _ | old <;> rcases (c'.keysOf a).get? key with _ | old' <;>
    rcases a with _ | i <;>
    first
    | exact hloose (h.congr (unresolved_of_core_eq rfl) (unresolved_of_core_eq rfl))
    | exact hscope (h.congr (unresolved_of_core_eq rfl) (unresolved_of_core_eq rfl)) i

/-- A definition is added that is written alike. -/
theorem addDefinition (a : Option DocumentId)
    (hd : ({ d with document := a } : Definition).WrittenAlike document { d' with document := a }) :
    WrittenAlike document (c.addDefinition d a).2 (c'.addDefinition d' a).2 := by
  have hpush : ∀ {c c' : Context}, WrittenAlike document c c' → WrittenAlike document
      { c with definitions := c.definitions.push { d with document := a } }
      { c' with definitions := c'.definitions.push { d' with document := a } } := by
    intro c c' h
    obtain ⟨hsize, hdefinition, hrest⟩ := writtenAlike_iff.1 h
    refine writtenAlike_iff.2 ⟨by simp [hsize], fun x d₁ d₁' hd₁ hd₁' => ?_, hrest⟩
    simp only [Context.definition?, Array.getElem?_push] at hd₁ hd₁'
    rw [hsize] at hd₁'
    by_cases hx : x.index = c.definitions.size
    · rw [if_pos hx] at hd₁ hd₁'
      cases hd₁
      cases hd₁'
      exact hd
    · rw [if_neg hx] at hd₁ hd₁'
      exact hdefinition x d₁ d₁' hd₁ hd₁'
  have hkey : d'.key = d.key := hd.key_eq
  rcases d with ⟨key, _, _, _, _, _, _⟩
  rcases d' with ⟨key', _, _, _, _, _, _⟩
  cases hkey
  unfold Context.addDefinition
  rw [h.size_eq]
  rcases key with _ | key
  · exact hpush h
  · exact hpush (h.registerKey a key _)

/-- A part is added that is written alike. -/
theorem addChild {parent : DefinitionId} {key : Option String} {kind kind' : DefinitionKind}
    (hk : ∀ a : Option DocumentId, (c.definition? parent).bind Definition.document = a →
      kind'.draft (a = some document) = kind.draft (a = some document)) :
    WrittenAlike document (c.addChild parent key kind).2 (c'.addChild parent key kind').2 := by
  have hdocument : (c'.definition? parent).bind Definition.document =
      (c.definition? parent).bind Definition.document := by
    rcases hd : c.definition? parent with _ | d
    · rw [h.definition?_none hd]
    · obtain ⟨d', hd', halike⟩ := h.definition? hd
      rw [hd', Option.bind_some, Option.bind_some, halike.document_eq]
  refine .congr ?_ (unresolved_addChild c parent key kind) (unresolved_addChild c' parent key kind')
  rw [hdocument, h.size_eq]
  have hadd : WrittenAlike document
      (c.addDefinition { key, parent := some parent, kind }
        ((c.definition? parent).bind Definition.document)).2
      (c'.addDefinition { key, parent := some parent, kind := kind' }
        ((c.definition? parent).bind Definition.document)).2 :=
    h.addDefinition _ (Definition.writtenAlike_iff.2 ⟨rfl, rfl, rfl, rfl, rfl, hk _ rfl⟩)
  refine WrittenAlike.modifyKind hadd fun _ hdraft => ?_
  rw [DefinitionKind.draft_addPart, hdraft, ← DefinitionKind.draft_addPart]

/-- A source text is set, which is hidden or the same. -/
theorem setSourceText {source source' : String}
    (hsource : source' = source ∨ c.Lies (· = some document) id) :
    WrittenAlike document (c.setSourceText id source) (c'.setSourceText id source') := by
  refine .congr ?_ (unresolved_setSourceText c id source) (unresolved_setSourceText c' id source')
  refine h.modifyKind fun {d kind'} hd hdraft => ?_
  rw [DefinitionKind.draft_setSource, DefinitionKind.draft_setSource, hdraft]
  rcases hsource with rfl | ⟨_, hd', hdocument⟩
  · rfl
  · cases hd.symm.trans hd'
    simp [hdocument]

end WrittenAlike

theorem WrittenAlike.hasList_eq (h : WrittenAlike document c c') (a : Option DocumentId) :
    c'.HasList a = c.HasList a := by
  have hsize := congrArg (fun c : Context => c.documents.size) h
  simp only [redact, unresolved, core, Array.size_map] at hsize
  rcases a with _ | a
  · rfl
  · rw [HasList, HasList, hsize]

end Context

/-! ## Edits -/

/-- The edits are the same but for a source text, which they give to a node of the document. -/
inductive Edit.Rewords (document : DocumentId) (c : Context) : Edit → Edit → Prop
  | same (e : Edit) : Rewords document c e e
  | title {parent : DefinitionId} {key : Option String} (source source' : String) :
      c.Lies (· = some document) parent →
      Rewords document c (.addSection parent key (some source))
        (.addSection parent key (some source'))
  | stanza {parent : DefinitionId} {key : Option String} (source source' : String) :
      c.Lies (· = some document) parent →
      Rewords document c (.addStanza parent key source) (.addStanza parent key source')
  | paragraph {parent : DefinitionId} {key : Option String} (source source' : String) :
      c.Lies (· = some document) parent →
      Rewords document c (.addParagraph parent key source) (.addParagraph parent key source')
  | definition {d d' : Definition} :
      ({ d with document := some document } : Definition).WrittenAlike document
        { d' with document := some document } →
      Rewords document c (.addDefinition d (some document)) (.addDefinition d' (some document))
  | sourceText {id : DefinitionId} (source source' : String) :
      c.Lies (· = some document) id →
      Rewords document c (.setSourceText id source) (.setSourceText id source')

/-- **Contexts that were written alike stay so.** -/
theorem Edit.Rewords.apply {e e' : Edit} (h : e.Rewords document c e')
    (halike : WrittenAlike document c c') : WrittenAlike document (e.apply c) (e'.apply c') := by
  have hhidden : ∀ {kind kind' : DefinitionKind} {parent : DefinitionId},
      c.Lies (· = some document) parent → kind'.draft true = kind.draft true →
      ∀ a : Option DocumentId, (c.definition? parent).bind Definition.document = a →
        kind'.draft (a = some document) = kind.draft (a = some document) := by
    rintro kind kind' parent ⟨d, hd, hdocument⟩ hdraft _ rfl
    rw [hd, Option.bind_some, hdocument]
    simpa using hdraft
  cases h with
  | title _ _ hparent | stanza _ _ hparent | paragraph _ _ hparent =>
    exact halike.addChild (hhidden hparent rfl)
  | definition hd => exact halike.addDefinition _ hd
  | sourceText source source' hid => exact halike.setSourceText (Or.inr hid)
  | same =>
    cases e with
    | addDocument key name =>
      obtain ⟨hsize, hdefinition, hdocuments, hrest⟩ := writtenAlike_iff.1 halike
      refine writtenAlike_iff.2 ⟨hsize, hdefinition, ?_, hrest⟩
      simp only [Edit.apply, Context.addDocument, Array.map_push, hdocuments]
    | setAuthor a author =>
      refine halike.modifyDocument (fun a b he => ?_) a
      exact congrArg (fun d : Document => { d with author := some author }) he
    | addVersion a language font =>
      have hadd : WrittenAlike document
          (c.addDefinition { language := some language, font, kind := .section {} } (some a)).2
          (c'.addDefinition { language := some language, font, kind := .section {} } (some a)).2 :=
        halike.addDefinition (some a)
          (Definition.writtenAlike_iff.2 ⟨rfl, rfl, rfl, rfl, rfl, rfl⟩)
      have hroot : (c'.addDefinition { language := some language, font, kind := .section {} }
          (some a)).1 = (c.addDefinition { language := some language, font, kind := .section {} }
            (some a)).1 := congrArg DefinitionId.mk halike.size_eq
      simp only [Edit.apply, Context.addVersion, hroot]
      refine WrittenAlike.modifyDocument hadd (fun d₁ d₂ he => ?_) a
      rcases d₁ with ⟨_, _, _, _, _, _⟩
      rcases d₂ with ⟨_, _, _, _, _, _⟩
      simp_all [Document.core]
    | addSection | addStanza | addParagraph | addPartReference =>
      exact halike.addChild fun _ _ => rfl
    | addDefinition d a =>
      exact halike.addDefinition a (Definition.writtenAlike_iff.2 ⟨rfl, rfl, rfl, rfl, rfl, rfl⟩)
    | setSourceText id source => exact halike.setSourceText (Or.inl rfl)
    | setLanguage id language =>
      refine halike.modifyDefinition fun d d' _ hd => ?_
      obtain ⟨hkey, hparent, hdocument, -, hfont, hkind⟩ := Definition.writtenAlike_iff.1 hd
      exact Definition.writtenAlike_iff.2 ⟨hkey, hparent, hdocument, rfl, hfont, hkind⟩
    | setFont id font =>
      refine halike.modifyDefinition fun d d' _ hd => ?_
      obtain ⟨hkey, hparent, hdocument, hlanguage, -, hkind⟩ := Definition.writtenAlike_iff.1 hd
      exact Definition.writtenAlike_iff.2 ⟨hkey, hparent, hdocument, hlanguage, rfl, hkind⟩
    | addReference definition user =>
      exact halike.congr (unresolved_of_core_eq (c.core_addReference definition user))
        (unresolved_of_core_eq (c'.core_addReference definition user))
    | setCommands | setFonts | registerAnalyzer | setSettings =>
      obtain ⟨hsize, hdefinition, hdocuments, hkeys, hcommands, hfonts, hanalyzers, hsettings⟩ :=
        writtenAlike_iff.1 halike
      simp only [Edit.apply, Context.registerAnalyzer]
      refine writtenAlike_iff.2 ⟨hsize, hdefinition, hdocuments, hkeys, ?_, ?_, ?_, ?_⟩ <;>
        first | assumption | rfl | rw [hanalyzers]

/-! ## Built contexts -/

namespace Context

/-- From new contexts with the same settings, edits lead to the contexts that are the same but for
    source texts of the document.  Every edit is one of `E` in the context that it changes. -/
inductive BuiltAlike (E : Context → Edit → Prop) (document : DocumentId) : Context → Context → Prop
  | new (settings : Settings) : BuiltAlike E document (.new settings) (.new settings)
  | edit {c c' : Context} {e e' : Edit} : BuiltAlike E document c c' → E c e → E c' e' →
      e.Rewords document c e' → BuiltAlike E document (e.apply c) (e'.apply c')

namespace BuiltAlike

variable {E : Context → Edit → Prop}

/-- The same edits. -/
theorem edits {edits : List Edit} (h : BuiltAlike E document c c') (he : Edit.All E c edits)
    (he' : Edit.All E c' edits) :
    BuiltAlike E document (edits.foldl Edit.apply c) (edits.foldl Edit.apply c') := by
  induction edits generalizing c c' with
  | nil => exact h
  | cons e edits ih => exact ih (h.edit he.1 he'.1 (.same e)) he.2 he'.2

variable (h : BuiltAlike E document c c')
include h

/-- **Contexts that are built alike were written alike.** -/
theorem writtenAlike : WrittenAlike document c c' := by
  induction h with
  | new settings => exact .of_unresolved_eq rfl
  | edit _ _ _ hrewords ih => exact hrewords.apply ih

theorem isBuilt (hE : ∀ c e, E c e → e.Applies c) : c.IsBuilt ∧ c'.IsBuilt := by
  induction h with
  | new settings => exact ⟨isBuilt_new settings, isBuilt_new settings⟩
  | edit _ he he' _ ih =>
    have hone : ∀ {c : Context} {e : Edit}, c.IsBuilt → E c e → (e.apply c).IsBuilt :=
      fun {_ e} hc he => hc.edits (show Edit.All Edit.Applies _ [e] from ⟨hE _ _ he, trivial⟩)
    exact ⟨hone ih.1 he, hone ih.2 he'⟩

theorem reached : c.ReachedBy E ∧ c'.ReachedBy E := by
  induction h with
  | new settings => exact ⟨.new settings, .new settings⟩
  | edit _ he he' _ ih => exact ⟨.edit ih.1 he, .edit ih.2 he'⟩

/-- No footnote has left its place, and no number was drawn. -/
theorem footnoteList_eq (a : Option DocumentId) : c'.footnoteList a = c.footnoteList a := by
  induction h with
  | new settings => rfl
  | @edit _ _ e e' _ _ _ _ ih => rw [e.footnoteList_apply, e'.footnoteList_apply, ih]

end BuiltAlike

/-- Texts of no document were written the same. -/
theorem LooseTextsAreBare.of_writtenAlike (hbare : c.LooseTextsAreBare)
    (h : WrittenAlike document c c') : c'.LooseTextsAreBare := by
  intro d' hd' hnone content' hcontent' written hwritten
  obtain ⟨i, hi, he⟩ := Array.getElem_of_mem hd'
  have hx : c'.definition? ⟨i⟩ = some d' := (Array.getElem?_eq_getElem hi).trans (congrArg some he)
  obtain ⟨d, hd, halike⟩ := h.symm.definition? hx
  have hnone' : d.document = none := halike.document_eq.trans hnone
  have hkind : d.kind.unresolved = d'.kind.unresolved := halike.kind_eq (by
    rw [hnone]
    exact (Option.some_ne_none document).symm)
  have hsource : content'.source ∈ d.kind.contents.map Content.source := by
    rw [← DefinitionKind.sources_unresolved, hkind, DefinitionKind.sources_unresolved]
    exact List.mem_map_of_mem hcontent'
  obtain ⟨content, hcontent, hsource⟩ := List.mem_map.1 hsource
  rw [h.commands_eq, ← hsource] at hwritten
  exact hbare d (Array.mem_of_getElem? hd) hnone' content hcontent written hwritten

end Context

end Rubric
