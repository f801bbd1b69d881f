/-
  Rubric — definitions: the nodes that documents are made of.

  A section owns its children, listed in order.  Everything else that joins
  nodes (the parent, the document, the references) is a plain number.

  * `Content`: a source text and the stage of its resolution (`Stage`);
  * `DefinitionKind`: sections, stanzas, paragraphs, part references and values;
  * `Definition`: a node with its key, parent, document, language and font;
    `Definition.ownTags`: these two as tags.
-/
import Rubric.Multilingual

namespace Rubric

/-- The place of a document in its context. -/
structure DocumentId where
  index : Nat
  deriving DecidableEq, Repr

/-! ## Content -/

/-- How far a source text is resolved. -/
inductive Stage where
  /-- The source has not been read. -/
  | unparsed
  /-- All commands are executed. -/
  | commandsResolved (inlines : List Inline)
  /-- All commands are executed and all fonts are converted. -/
  | fullyResolved (inlines : List Inline)

/-- A source text with the stage of its resolution. -/
structure Content where
  source : String
  stage : Stage

namespace Content

/-- A source text that has not been read. -/
def ofSource (source : String) : Content where
  source := source
  stage := .unparsed

/-- The parsed text; of an unread source, one run that holds it. -/
def inlines (content : Content) : List Inline :=
  match content.stage with
  | .unparsed => [.text content.source]
  | .commandsResolved inlines | .fullyResolved inlines => inlines

/-- The content with its commands executed. -/
def resolveCommands (content : Content) (inlines : List Inline) : Content :=
  { content with stage := .commandsResolved inlines }

/-- The content with its fonts converted by `f`, if its commands are executed and its fonts
    are not yet converted. -/
def resolveFonts (content : Content) (f : Inline → Inline) : Content :=
  match content.stage with
  | .unparsed | .fullyResolved _ => content
  | .commandsResolved inlines => { content with stage := .fullyResolved (inlines.map f) }

end Content

/-! ## Kinds of definition -/

/-- Parts in order, with an optional title. -/
structure Section where
  title : Option Content := none
  children : List DefinitionId := []

/-- Another definition in this place, found by its key when commands are handled. -/
structure PartReference where
  targetKey : String
  target : Option DefinitionId := none

/-- What a definition holds. -/
inductive DefinitionKind where
  | section (body : Section)
  | stanza (content : Content)
  | paragraph (content : Content)
  | partReference (reference : PartReference)
  | boolean (value : Bool)
  | integer (value : Int)
  /-- A multilingual value. -/
  | multilingual (runs : RunCollection)

/-- The name of a kind of definition. -/
def DefinitionKind.name : DefinitionKind → String
  | .section _ => "section"
  | stanza _ => "stanza"
  | paragraph _ => "paragraph"
  | partReference _ => "part reference"
  | boolean _ => "boolean"
  | integer _ => "integer"
  | multilingual _ => "translations"

/-! ## Definitions -/

/-- A node. -/
structure Definition where
  key : Option String := none
  parent : Option DefinitionId := none
  document : Option DocumentId := none
  language : Option Language := none
  font : Option String := none
  /-- The nodes whose commands used this definition, in the order they did so. -/
  references : List DefinitionId := []
  kind : DefinitionKind

/-- The tags that a definition sets itself. -/
def Definition.ownTags (d : Definition) : Tags where
  language := d.language
  font := (d.font.map .named).getD .inherit

end Rubric
