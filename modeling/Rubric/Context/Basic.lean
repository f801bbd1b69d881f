/-
  Rubric — contexts: all documents that are loaded together.

  A context holds every definition of every document, the keys of each
  document and the global ones, the commands, fonts and analyzers, the
  settings, the footnotes, and the warnings given so far.

  * `Context.new`: a context with the built-in commands, fonts and analyzers;
  * `Context.lookup?`: a key in the scope of a document, then in the global
    scope;
  * `Context.effectiveTags?`: the tags in effect at a definition, along the
    chain of its parents; there are none if the chain goes on without end and
    something is never set;
  * `Context.footnotes` and the operations on footnote lists.
-/
import Rubric.Analyzer.Coptic
import Rubric.Command.Registry
import Rubric.Definition
import Rubric.Font.Shenouda
import Rubric.Settings

namespace Rubric

/-! ## Warnings -/

/-- Something that is not as it should be, but does not stop the work. -/
inductive Warning where
  /-- A font is taken for a Unicode font. -/
  | unregisteredFont (name : String)
  /-- A definition takes the place of another one under its key. -/
  | keyReplaced (new old : DefinitionId) (key : String)
  /-- A definition is added under one that is no section, of the kind named. -/
  | noSection (child parent : DefinitionId) (kind : String)
  /-- A source text is given to a definition that has none, of the kind named. -/
  | noSource (id : DefinitionId) (kind : String)
  deriving DecidableEq, Repr

/-- The text of a warning. -/
def Warning.message : Warning → String
  | unregisteredFont name =>
    s!"font `{name}` is not registered; treating it as a Unicode font"
  | keyReplaced new old key =>
    s!"definition {new.toString} replaces definition {old.toString} under the key `{key}`"
  | noSection child parent kind =>
    s!"definition {child.toString} added under {parent.toString}, which is a {kind} and "
      ++ "cannot have children"
  | noSource id kind => s!"cannot set the source text of {id.toString}, a {kind}"

/-! ## Documents -/

/-- A numbering of footnotes, and the footnotes that have left their place. -/
structure FootnoteList where
  /-- The last number given, which has 32 bits: fewer than `2 ^ 32` numbers are drawn. -/
  counter : Nat := 0
  routed : List Footnote := []

/-- One language version of a document. -/
structure Version where
  language : Language
  font : Option String
  root : DefinitionId
  deriving DecidableEq, Repr

instance : Multilingual Version where
  language? version := some version.language

/-- A document. -/
structure Document where
  key : String
  name : String
  author : Option String := none
  versions : List Version := []
  keys : Index String DefinitionId := .empty
  footnotes : FootnoteList := {}

/-! ## Contexts -/

/-- Everything that is loaded together. -/
structure Context where
  definitions : Array Definition := #[]
  documents : Array Document := #[]
  globalKeys : Index String DefinitionId := .empty
  commands : Commands := .builtIn
  fonts : FontRegistry := .builtIn
  analyzers : Index KnownLanguage Analyzer := .empty
  settings : Settings := {}
  /-- The footnotes of definitions that belong to no document. -/
  looseFootnotes : FootnoteList := {}
  /-- The number of node passes under way. -/
  depth : Nat := 0
  /-- The warnings given, in order. -/
  warnings : Array Warning := #[]

namespace Context

/-- A context with the built-in commands, fonts and analyzers. -/
def new (settings : Settings) : Context :=
  { settings, analyzers := Index.empty.insert .coptic Dictionary.coptic.analyzer }

/-- The definition of a number. -/
def definition? (c : Context) (id : DefinitionId) : Option Definition :=
  c.definitions[id.index]?

/-- The document of a number. -/
def document? (c : Context) (id : DocumentId) : Option Document :=
  c.documents[id.index]?

/-- Changes a definition. -/
def modifyDefinition (c : Context) (id : DefinitionId) (f : Definition → Definition) : Context :=
  { c with definitions := c.definitions.modify id.index f }

/-- Changes a document. -/
def modifyDocument (c : Context) (id : DocumentId) (f : Document → Document) : Context :=
  { c with documents := c.documents.modify id.index f }

/-- Gives a warning. -/
def warn (c : Context) (warning : Warning) : Context :=
  { c with warnings := c.warnings.push warning }

/-- Gives warnings in order. -/
def warnAll (c : Context) (warnings : List Warning) : Context :=
  { c with warnings := c.warnings ++ warnings.toArray }

/-! ## Keys -/

/-- The keys of a document, or the global ones. -/
def keysOf (c : Context) : Option DocumentId → Index String DefinitionId
  | none => c.globalKeys
  | some document => ((c.document? document).map Document.keys).getD .empty

/-- The definition under a key, in the document's scope if it is there, else in the global
    scope. -/
def lookup? (c : Context) (key : String) (document : Option DocumentId) :
    Option DefinitionId :=
  (document.bind fun d => (c.keysOf (some d)).get? key).or (c.globalKeys.get? key)

/-- The definition under a key, or the cause of the error. -/
def lookup (c : Context) (key : String) (document : Option DocumentId) :
    Except Cause DefinitionId :=
  match c.lookup? key document with
  | some id => .ok id
  | none => .error (.definitionNotFound key none)

/-! ## Tags in effect -/

/-- The tags in effect where `found` is set already: a definition and its parents in turn set what
    is not, until all is set.  At most `n` definitions are asked. -/
def tagsWithin (c : Context) : Nat → Tags → DefinitionId → Option Tags
  | 0, _, _ => none
  | n + 1, found, id => do
    let definition ← c.definition? id
    let found := found.inherit definition.ownTags
    if found.isComplete then return found
    match definition.parent with
    | none => return found
    | some parent => c.tagsWithin n found parent

/-- The tags in effect at a definition. -/
def effectiveTags? (c : Context) (id : DefinitionId) : Option Tags :=
  c.tagsWithin c.definitions.size .unset id

/-! ## References -/

/-- Records that a node has used a definition. -/
def addReference (c : Context) (definition user : DefinitionId) : Context :=
  c.modifyDefinition definition fun d => { d with references := d.references ++ [user] }

/-! ## Footnotes -/

/-- The footnote list of a document, or of no document. -/
def footnoteList (c : Context) : Option DocumentId → FootnoteList
  | none => c.looseFootnotes
  | some document => ((c.document? document).map Document.footnotes).getD {}

/-- The footnotes of a document, or of no document, in the order they left their place. -/
def footnotes (c : Context) (document : Option DocumentId) : List Footnote :=
  (c.footnoteList document).routed

/-- Changes the footnote list of a document, or of no document. -/
def modifyFootnotes (c : Context) (document : Option DocumentId)
    (f : FootnoteList → FootnoteList) : Context :=
  match document with
  | none => { c with looseFootnotes := f c.looseFootnotes }
  | some document => c.modifyDocument document fun d => { d with footnotes := f d.footnotes }

/-- Adds footnotes at the end of a list. -/
def routeFootnotes (c : Context) (document : Option DocumentId) (notes : List Footnote) :
    Context :=
  c.modifyFootnotes document fun list => { list with routed := list.routed ++ notes }

/-- Puts a footnote in the place of the first one with its number. -/
def replaceFootnote (note : Footnote) : List Footnote → List Footnote
  | [] => []
  | old :: rest =>
    if old.number = note.number then note :: rest else old :: replaceFootnote note rest

/-- Puts footnotes in the places of those with their numbers. -/
def rerouteFootnotes (c : Context) (document : Option DocumentId) (notes : List Footnote) :
    Context :=
  c.modifyFootnotes document fun list =>
    { list with routed := notes.foldl (fun routed note => replaceFootnote note routed) list.routed }

end Context

end Rubric
