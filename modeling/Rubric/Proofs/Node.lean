/-
  Rubric — what a definition consists of, and the core of a context.

  * `DefinitionKind.contents`, `children`, `target?`: the texts of a definition,
    its parts, and the definition that stands in its place;
  * `Context.core`: the context without its records, which are footnotes,
    references, warnings and the number of passes under way.  Keys and
    definitions are those of the core: `lookup?_core`, `definition?_core`;
  * the definitions of a context that one operation has changed.
-/
import Rubric.Context.Build
import Rubric.Resolution.Fonts

namespace Rubric

/-! ## Parts -/

namespace Content

/-- The commands of the content are executed. -/
def IsHandled (content : Content) : Prop :=
  content.stage ≠ .unparsed

instance (content : Content) : Decidable content.IsHandled :=
  match h : content.stage with
  | .unparsed => isFalse fun hh => hh h
  | .commandsResolved _ | .fullyResolved _ => isTrue (by rw [IsHandled, h]; nofun)

/-- The fonts of the content are converted. -/
def IsConverted (content : Content) : Prop :=
  ∃ inlines, content.stage = .fullyResolved inlines

end Content

namespace DefinitionKind

/-- The texts of a definition. -/
def contents : DefinitionKind → List Content
  | .section body => body.title.toList
  | .stanza content | .paragraph content => [content]
  | .partReference _ | .boolean _ | .integer _ | .multilingual _ => []

/-- The parts of a definition. -/
def children : DefinitionKind → List DefinitionId
  | .section body => body.children
  | _ => []

/-- The definition that stands in the place of another. -/
def target? : DefinitionKind → Option DefinitionId
  | .partReference reference => reference.target
  | _ => none

theorem target?_eq_some {kind : DefinitionKind} {t : DefinitionId} : kind.target? = some t ↔
    ∃ reference, kind = .partReference reference ∧ reference.target = some t := by
  cases kind <;> simp [target?]

/-- A multilingual value. -/
def IsMultilingual (kind : DefinitionKind) : Prop :=
  ∃ runs, kind = .multilingual runs

/-- Nothing in the definition is resolved, and it has no parts. -/
structure IsFresh (kind : DefinitionKind) : Prop where
  contents : ∀ content ∈ kind.contents, content.stage = .unparsed
  children : kind.children = []
  target : kind.target? = none

/-- Changes the texts of a definition. -/
def mapContents (f : Content → Content) : DefinitionKind → DefinitionKind
  | .section body => .section { body with title := body.title.map f }
  | .stanza content => .stanza (f content)
  | .paragraph content => .paragraph (f content)
  | other => other

/-- Sets the definition that stands in the place of a part reference. -/
def setTarget (target : DefinitionId) : DefinitionKind → DefinitionKind
  | .partReference reference => .partReference { reference with target := some target }
  | other => other

/-- Only the target that was set stands in the place of a part reference. -/
theorem eq_of_target?_setTarget {kind : DefinitionKind} {target t : DefinitionId}
    (h : (kind.setTarget target).target? = some t) : t = target := by
  cases kind <;> cases h
  rfl

@[simp]
theorem contents_mapContents (f : Content → Content) (kind : DefinitionKind) :
    (kind.mapContents f).contents = kind.contents.map f := by
  rcases kind with ⟨_ | _, _⟩ | _ | _ | _ | _ | _ | _ <;> rfl

theorem mem_contents_mapContents {f : Content → Content} {kind : DefinitionKind}
    {content' : Content} :
    content' ∈ (kind.mapContents f).contents ↔ ∃ content ∈ kind.contents, f content = content' := by
  rw [contents_mapContents, List.mem_map]

theorem mapContents_mapContents (f g : Content → Content) (kind : DefinitionKind) :
    (kind.mapContents f).mapContents g = kind.mapContents fun content => g (f content) := by
  rcases kind with ⟨_ | _, _⟩ | _ | _ | _ | _ | _ | _ <;> rfl

@[simp]
theorem children_mapContents (f : Content → Content) (kind : DefinitionKind) :
    (kind.mapContents f).children = kind.children := by
  cases kind <;> rfl

@[simp]
theorem target?_mapContents (f : Content → Content) (kind : DefinitionKind) :
    (kind.mapContents f).target? = kind.target? := by
  cases kind <;> rfl

@[simp]
theorem isMultilingual_mapContents {f : Content → Content} {kind : DefinitionKind} :
    (kind.mapContents f).IsMultilingual ↔ kind.IsMultilingual := by
  cases kind <;> simp [IsMultilingual, mapContents]

end DefinitionKind

/-! ## The core -/

/-- The definition without its references. -/
def Definition.core (d : Definition) : Definition :=
  { d with references := [] }

/-- The document without its footnotes. -/
def Document.core (d : Document) : Document :=
  { d with footnotes := {} }

namespace Context

/-- The context without its records. -/
def core (c : Context) : Context :=
  { c with
    definitions := c.definitions.map Definition.core
    documents := c.documents.map Document.core
    looseFootnotes := {}
    depth := 0
    warnings := #[] }

variable {c c' : Context} {id : DefinitionId}

theorem definition?_of_definitions_eq (h : c'.definitions = c.definitions) (x : DefinitionId) :
    c'.definition? x = c.definition? x := by
  rw [definition?, h, definition?]

@[simp]
theorem definition?_core (c : Context) (id : DefinitionId) :
    c.core.definition? id = (c.definition? id).map Definition.core := by
  simp [definition?, core]

@[simp]
theorem document?_core (c : Context) (id : DocumentId) :
    c.core.document? id = (c.document? id).map Document.core := by
  simp [document?, core]

/-- Of contexts with one core, the definitions differ in nothing but their references. -/
theorem definition?_of_core_eq (h : c'.core = c.core) {d : Definition}
    (hd : c.definition? id = some d) :
    ∃ references, c'.definition? id = some { d with references } := by
  have hcore : (c'.definition? id).map Definition.core = some d.core := by
    rw [← definition?_core, h, definition?_core, hd]; rfl
  obtain ⟨d', hd', he⟩ := Option.map_eq_some_iff.1 hcore
  refine ⟨d'.references, hd'.trans ?_⟩
  cases d; cases d'
  simp only [Definition.core, Definition.mk.injEq] at he
  simp [he]

theorem keysOf_core (c : Context) (document : Option DocumentId) :
    c.core.keysOf document = c.keysOf document := by
  cases document with
  | none => rfl
  | some document => simp only [keysOf, document?_core]; cases c.document? document <;> rfl

theorem lookup?_core (c : Context) (key : String) (document : Option DocumentId) :
    c.core.lookup? key document = c.lookup? key document := by
  simp only [lookup?, keysOf_core]; rfl

/-- A key that is found leads to its definition. -/
theorem lookup?_of_lookup {key : String} {document : Option DocumentId} {target : DefinitionId}
    (h : c.lookup key document = .ok target) : c.lookup? key document = some target := by
  unfold lookup at h
  split at h <;> simp_all

theorem lookup?_of_core_eq (h : c'.core = c.core) (key : String) (document : Option DocumentId) :
    c'.lookup? key document = c.lookup? key document := by
  rw [← lookup?_core, h, lookup?_core]

/-! ## Records -/

theorem core_atDepth (c : Context) (depth : Nat) : ({ c with depth } : Context).core = c.core :=
  rfl

theorem core_warnAll (c : Context) (warnings : List Warning) : (c.warnAll warnings).core = c.core :=
  rfl

@[simp]
theorem warnAll_nil (c : Context) : c.warnAll [] = c := by
  simp [warnAll]

/-- A change that a map does not see. -/
theorem map_modify_of_eq {α β : Type} {f : α → α} {g : α → β} (h : ∀ a, g (f a) = g a)
    (a : Array α) (i : Nat) : (a.modify i f).map g = a.map g := by
  ext j
  · simp
  · simp only [Array.getElem_map, Array.getElem_modify]
    split
    · exact h _
    · rfl

theorem core_addReference (c : Context) (definition user : DefinitionId) :
    (c.addReference definition user).core = c.core := by
  simp only [core, addReference, modifyDefinition]
  rw [map_modify_of_eq fun d => by rfl]

@[simp]
theorem lookup?_addReference (c : Context) (definition user : DefinitionId) (key : String)
    (document : Option DocumentId) :
    (c.addReference definition user).lookup? key document = c.lookup? key document :=
  lookup?_of_core_eq (c.core_addReference definition user) key document

/-- A use changes no more of a definition than its references. -/
theorem definition?_addReference {d : Definition} (hd : c.definition? id = some d)
    (definition user : DefinitionId) :
    ∃ references, (c.addReference definition user).definition? id = some { d with references } :=
  definition?_of_core_eq (c.core_addReference definition user) hd

theorem core_modifyFootnotes (c : Context) (document : Option DocumentId)
    (f : FootnoteList → FootnoteList) : (c.modifyFootnotes document f).core = c.core := by
  cases document with
  | none => rfl
  | some document =>
    simp only [core, modifyFootnotes, modifyDocument]
    rw [map_modify_of_eq fun d => by rfl]

theorem definitions_modifyFootnotes (c : Context) (document : Option DocumentId)
    (f : FootnoteList → FootnoteList) :
    (c.modifyFootnotes document f).definitions = c.definitions := by
  cases document <;> rfl

theorem definition?_modifyFootnotes (c : Context) (document : Option DocumentId)
    (f : FootnoteList → FootnoteList) (x : DefinitionId) :
    (c.modifyFootnotes document f).definition? x = c.definition? x := by
  rw [definition?, definitions_modifyFootnotes, definition?]

theorem depth_modifyFootnotes (c : Context) (document : Option DocumentId)
    (f : FootnoteList → FootnoteList) : (c.modifyFootnotes document f).depth = c.depth := by
  cases document <;> rfl

/-! ## Changed definitions -/

theorem definition?_modifyDefinition (c : Context) (id x : DefinitionId)
    (f : Definition → Definition) :
    (c.modifyDefinition id f).definition? x =
      if id = x then (c.definition? x).map f else c.definition? x := by
  simp only [definition?, modifyDefinition, Array.getElem?_modify]
  rcases id with ⟨i⟩; rcases x with ⟨j⟩
  by_cases h : i = j <;> simp [h]

/-- What is there after one definition is changed was there before, or is the one changed. -/
theorem of_definition?_modifyDefinition {f : Definition → Definition} {x : DefinitionId}
    {d' : Definition} (h : (c.modifyDefinition id f).definition? x = some d') :
    id ≠ x ∧ c.definition? x = some d' ∨
      id = x ∧ ∃ d, c.definition? id = some d ∧ d' = f d := by
  rw [definition?_modifyDefinition] at h
  by_cases he : id = x
  · subst he
    rw [if_pos rfl] at h
    obtain ⟨d, hd, rfl⟩ := Option.map_eq_some_iff.1 h
    exact Or.inr ⟨rfl, d, hd, rfl⟩
  · rw [if_neg he] at h
    exact Or.inl ⟨he, h⟩

/-- The definition of a number, after one definition's kind is changed. -/
theorem definition?_modifyKind {f : DefinitionKind → DefinitionKind} {x : DefinitionId}
    {d' : Definition}
    (h : (c.modifyDefinition id fun d => { d with kind := f d.kind }).definition? x = some d') :
    ∃ d, c.definition? x = some d ∧
      d' = { d with kind := if id = x then f d.kind else d.kind } := by
  rcases of_definition?_modifyDefinition h with ⟨he, hd⟩ | ⟨rfl, d, hd, rfl⟩
  · exact ⟨d', hd, by simp [he]⟩
  · exact ⟨d, hd, by simp⟩

theorem modifyContent_eq (c : Context) (id : DefinitionId) (f : Content → Content) :
    c.modifyContent id f =
      c.modifyDefinition id fun d => { d with kind := d.kind.mapContents f } := by
  unfold modifyContent
  congr 1; funext d
  rcases d with ⟨_, _, _, _, _, _, _ | _ | _ | _ | _ | _ | _⟩ <;> rfl

theorem setTarget_eq (c : Context) (id target : DefinitionId) :
    c.setTarget id target =
      c.modifyDefinition id fun d => { d with kind := d.kind.setTarget target } := by
  unfold setTarget
  congr 1

/-- The definition, once its content is changed. -/
theorem definition?_modifyContent {d : Definition} (hd : c.definition? id = some d)
    (f : Content → Content) :
    (c.modifyContent id f).definition? id = some { d with kind := d.kind.mapContents f } := by
  rw [modifyContent_eq, definition?_modifyDefinition, if_pos rfl, hd]
  rfl

/-- The part reference, once its target is found. -/
theorem definition?_setTarget {d : Definition} {reference : PartReference}
    (hd : c.definition? id = some d) (hk : d.kind = .partReference reference)
    (target : DefinitionId) :
    ∃ references, ((c.addReference target id).setTarget id target).definition? id = some { d with
      references, kind := .partReference { reference with target := some target } } := by
  obtain ⟨references, hd₁⟩ := definition?_addReference hd target id
  refine ⟨references, ?_⟩
  rw [setTarget_eq, definition?_modifyDefinition, if_pos rfl, hd₁, Option.map_some, hk]
  rfl

/-! ## Added definitions -/

theorem definitions_registerKey (c : Context) (document : Option DocumentId) (key : String) :
    (c.registerKey document key id).definitions = c.definitions := by
  unfold registerKey
  cases (c.keysOf document).get? key <;> cases document <;> rfl

theorem definitions_addDefinition (c : Context) (d : Definition) (document : Option DocumentId) :
    (c.addDefinition d document).2.definitions = c.definitions.push { d with document } := by
  unfold addDefinition
  cases d.key with
  | none => rfl
  | some key => simp only [definitions_registerKey]

/-- The definitions after one is added. -/
theorem definition?_addDefinition (c : Context) (d : Definition) (document : Option DocumentId)
    (x : DefinitionId) :
    (c.addDefinition d document).2.definition? x =
      if x.index = c.definitions.size then some { d with document } else c.definition? x := by
  simp only [definition?, definitions_addDefinition, Array.getElem?_push]

/-- What is there after one definition is added was there before, or is the one added. -/
theorem of_definition?_addDefinition {d d' : Definition} {document : Option DocumentId}
    {x : DefinitionId} (h : (c.addDefinition d document).2.definition? x = some d') :
    c.definition? x = some d' ∨ x.index = c.definitions.size ∧ d' = { d with document } := by
  rw [definition?_addDefinition] at h
  split at h
  · exact Or.inr ⟨‹_›, (Option.some.inj h).symm⟩
  · exact Or.inl h

/-- A truth value is made: one more definition, under its key. -/
theorem exists_addBoolean (c : Context) (key : String) (value : Bool) :
    ∃ warnings, (c.addBoolean none key value).2 =
      { c.warnAll warnings with
        globalKeys := c.globalKeys.insert key ⟨c.definitions.size⟩
        definitions := c.definitions.push { key := some key, kind := .boolean value } } := by
  simp only [addBoolean, addDefinition, registerKey]
  rcases (c.keysOf none).get? key with _ | old
  · exact ⟨[], by rw [warnAll_nil]⟩
  · exact ⟨[.keyReplaced ⟨c.definitions.size⟩ old key], by simp [warn, warnAll]⟩

/-- A truth value is found under its key, unless the document has the key itself. -/
theorem lookup?_addBoolean (c : Context) (key other : String) (value : Bool)
    (document : Option DocumentId) :
    (c.addBoolean none key value).2.lookup? other document =
      (document.bind fun d => (c.keysOf (some d)).get? other).or
        (if key = other then some ⟨c.definitions.size⟩ else c.globalKeys.get? other) := by
  obtain ⟨warnings, hmade⟩ := c.exists_addBoolean key value
  rw [← Index.get?_insert, hmade]
  rfl

theorem index_lt_of_definition? {d : Definition} (h : c.definition? id = some d) :
    id.index < c.definitions.size := by
  obtain ⟨hlt, -⟩ := Array.getElem?_eq_some_iff.1 h
  exact hlt

/-- What was defined stays defined when a definition is added. -/
theorem definition?_addDefinition_of_some {d d' : Definition} {document : Option DocumentId}
    (h : c.definition? id = some d') :
    (c.addDefinition d document).2.definition? id = some d' := by
  have hlt := index_lt_of_definition? h
  rw [definition?_addDefinition, if_neg (by omega), h]

end Context

end Rubric
