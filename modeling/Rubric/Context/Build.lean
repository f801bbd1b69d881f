/-
  Rubric — building the documents of a context.

  Every addition gives the number of what it adds.  A key is registered in the
  scope of the document the definition belongs to, or in the global scope; of
  two definitions under one key the later one counts.

  * `addDocument`, `addVersion`, and the parts: `addSection`, `addStanza`,
    `addParagraph`, `addPartReference`;
  * `addDefinition` and the values: `addBoolean`, `addInteger`,
    `addMultilingual`, `addStandaloneStanza`;
  * `setSourceText`, `setLanguage`, `setFont`, `setAuthor`.
-/
import Rubric.Context.Basic

namespace Rubric.Context

/-! ## Definitions -/

/-- Registers a key in the scope of a document or in the global scope. -/
def registerKey (c : Context) (document : Option DocumentId) (key : String)
    (id : DefinitionId) : Context :=
  let c := match (c.keysOf document).get? key with
    | some old => c.warn (.keyReplaced id old key)
    | none => c
  match document with
  | none => { c with globalKeys := c.globalKeys.insert key id }
  | some document => c.modifyDocument document fun d => { d with keys := d.keys.insert key id }

/-- Adds a definition to a document or to none, and registers its key. -/
def addDefinition (c : Context) (definition : Definition) (document : Option DocumentId) :
    DefinitionId × Context :=
  let id : DefinitionId := ⟨c.definitions.size⟩
  let c := match definition.key with
    | some key => c.registerKey document key id
    | none => c
  (id, { c with definitions := c.definitions.push { definition with document } })

/-- Adds a boolean. -/
def addBoolean (c : Context) (document : Option DocumentId) (key : String) (value : Bool) :
    DefinitionId × Context :=
  c.addDefinition { key := some key, kind := .boolean value } document

/-- Adds an integer. -/
def addInteger (c : Context) (document : Option DocumentId) (key : String) (value : Int) :
    DefinitionId × Context :=
  c.addDefinition { key := some key, kind := .integer value } document

/-- Adds a multilingual value. -/
def addMultilingual (c : Context) (document : Option DocumentId) (key : String)
    (runs : RunCollection) : DefinitionId × Context :=
  c.addDefinition { key := some key, kind := .multilingual runs } document

/-- Adds a stanza that stands in no section. -/
def addStandaloneStanza (c : Context) (document : Option DocumentId) (key : Option String)
    (source : String) : DefinitionId × Context :=
  c.addDefinition { key, kind := .stanza (.ofSource source) } document

/-! ## Documents -/

/-- Adds a document. -/
def addDocument (c : Context) (key name : String) : DocumentId × Context :=
  (⟨c.documents.size⟩, { c with documents := c.documents.push { key, name } })

/-- Sets the author of a document. -/
def setAuthor (c : Context) (document : DocumentId) (author : String) : Context :=
  c.modifyDocument document fun d => { d with author := some author }

/-- Adds a language version to a document and gives its root section. -/
def addVersion (c : Context) (document : DocumentId) (language : Language)
    (font : Option String) : DefinitionId × Context :=
  let (root, c) := c.addDefinition
    { language := some language, font, kind := .section {} } (some document)
  (root, c.modifyDocument document fun d =>
    { d with versions := d.versions ++ [{ language, font, root }] })

/-- The root section of a document's version for a language. -/
def version? (c : Context) (document : DocumentId) (language : Language) :
    Option DefinitionId :=
  (c.document? document).bind fun d =>
    (Multilingual.find? d.versions c.settings.equivalence language).map Version.root

/-! ## Parts -/

/-- Adds a definition as the last child of a section, in the section's document. -/
def addChild (c : Context) (parent : DefinitionId) (key : Option String)
    (kind : DefinitionKind) : DefinitionId × Context :=
  let document := (c.definition? parent).bind Definition.document
  let (id, c) := c.addDefinition { key, parent := some parent, kind } document
  match (c.definition? parent).map Definition.kind with
  | some (.section body) =>
    (id, c.modifyDefinition parent fun d =>
      { d with kind := .section { body with children := body.children ++ [id] } })
  | some other => (id, c.warn (.noSection id parent other.name))
  | none => (id, c)

/-- Adds a section with an optional title. -/
def addSection (c : Context) (parent : DefinitionId) (key title : Option String) :
    DefinitionId × Context :=
  c.addChild parent key (.section { title := title.map .ofSource })

/-- Adds a stanza. -/
def addStanza (c : Context) (parent : DefinitionId) (key : Option String) (source : String) :
    DefinitionId × Context :=
  c.addChild parent key (.stanza (.ofSource source))

/-- Adds a paragraph. -/
def addParagraph (c : Context) (parent : DefinitionId) (key : Option String)
    (source : String) : DefinitionId × Context :=
  c.addChild parent key (.paragraph (.ofSource source))

/-- Adds a reference to the part with the key `targetKey`. -/
def addPartReference (c : Context) (parent : DefinitionId) (key : Option String)
    (targetKey : String) : DefinitionId × Context :=
  c.addChild parent key (.partReference { targetKey })

/-! ## Changes -/

/-- Sets the source text of a stanza, a paragraph or a section title; it is unread then. -/
def setSourceText (c : Context) (id : DefinitionId) (source : String) : Context :=
  match (c.definition? id).map Definition.kind with
  | some (.stanza _) =>
    c.modifyDefinition id fun d => { d with kind := .stanza (.ofSource source) }
  | some (.paragraph _) =>
    c.modifyDefinition id fun d => { d with kind := .paragraph (.ofSource source) }
  | some (.section body) =>
    c.modifyDefinition id fun d =>
      { d with kind := .section { body with title := some (.ofSource source) } }
  | some other => c.warn (.noSource id other.name)
  | none => c

/-- Sets the language of a definition. -/
def setLanguage (c : Context) (id : DefinitionId) (language : Language) : Context :=
  c.modifyDefinition id fun d => { d with language := some language }

/-- Sets the font of a definition. -/
def setFont (c : Context) (id : DefinitionId) (font : String) : Context :=
  c.modifyDefinition id fun d => { d with font := some font }

/-- Sets the analyzer for a language, in place of any other. -/
def registerAnalyzer (c : Context) (language : KnownLanguage) (analyzer : Analyzer) :
    Context :=
  { c with analyzers := c.analyzers.insert language analyzer }

end Rubric.Context
