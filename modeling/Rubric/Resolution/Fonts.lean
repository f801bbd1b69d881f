/-
  Rubric — the font pass.

  The font pass converts text typed in legacy fonts to Unicode, first in the
  definitions that a node's commands stand for, then in the node.  It needs
  the commands of the node to be handled.

  * `Inline.remap`: an inline with its runs converted, wherever they are in it;
  * `Engine.fontPass`: the pass of one node over those of others;
  * `Engine.handleFonts n`: the pass of a node whose passes are nested at most
    `n` deep;
  * `Engine.resolveDocument`: both passes for all versions of a document.
-/
import Rubric.Resolution.Commands

namespace Rubric

/-! ## Inlines -/

/-- The tags of a run once its font is converted: it is Unicode then, and what is
    transliterated counts as Unicode. -/
def Tags.settled (own enclosing : Tags) : Tags :=
  let tags := own.inherit enclosing
  if tags.isTransliterated || tags.fontName?.isSome then { own with font := .cleared } else own

/-- A run in Unicode. -/
def FontRegistry.remapRun (fonts : FontRegistry) (own enclosing : Tags) (text : String) :
    Inline :=
  .run (fonts.normalizeSegment { text, font := (own.inherit enclosing).typedFont? })
    (own.settled enclosing)

namespace Inline

mutual

/-- The inline with all its runs in Unicode. -/
def remap (fonts : FontRegistry) (enclosing : Tags) : Inline → Inline
  | run text own => fonts.remapRun own enclosing text
  | span inlines own => span (remapList fonts (own.inherit enclosing) inlines) own
  | command name kind parameters own evaluation =>
    let tags := own.inherit enclosing
    command name kind (remapList fonts tags parameters) own
      (remapEvaluation fonts tags evaluation)

/-- The inlines with all their runs in Unicode. -/
def remapList (fonts : FontRegistry) (enclosing : Tags) : List Inline → List Inline
  | [] => []
  | inline :: rest => inline.remap fonts enclosing :: remapList fonts enclosing rest

/-- An evaluation with all runs in its output and its footnote in Unicode. -/
def remapEvaluation (fonts : FontRegistry) (enclosing : Tags) : Evaluation → Evaluation
  | .pending => .pending
  | .evaluated output => .evaluated (remapOutput fonts enclosing output)
  | .noted output number body =>
    .noted (remapOutput fonts enclosing output) number (body.remap fonts enclosing)

/-- An output with all its runs in Unicode. -/
def remapOutput (fonts : FontRegistry) (enclosing : Tags) : Output → Output
  | .definition id => .definition id
  | .parameter i => .parameter i
  | .inline inline => .inline (inline.remap fonts enclosing)

end

mutual

/-- The fonts that the runs of an inline are typed in, in order. -/
def typedFonts (enclosing : Tags) : Inline → List String
  | run _ own => (own.inherit enclosing).typedFont?.toList
  | span inlines own => typedFontsList (own.inherit enclosing) inlines
  | command _ _ parameters own evaluation =>
    typedFontsList (own.inherit enclosing) parameters
      ++ typedFontsEvaluation (own.inherit enclosing) evaluation

/-- The fonts that the runs of inlines are typed in. -/
def typedFontsList (enclosing : Tags) : List Inline → List String
  | [] => []
  | inline :: rest => inline.typedFonts enclosing ++ typedFontsList enclosing rest

/-- The fonts that the runs of an output and a footnote are typed in. -/
def typedFontsEvaluation (enclosing : Tags) : Evaluation → List String
  | .pending => []
  | .evaluated output => typedFontsOutput enclosing output
  | .noted output _ body => typedFontsOutput enclosing output ++ body.typedFonts enclosing

/-- The fonts that the runs of an output are typed in. -/
def typedFontsOutput (enclosing : Tags) : Output → List String
  | .definition _ | .parameter _ => []
  | .inline inline => inline.typedFonts enclosing

end

end Inline

/-! ## Nodes -/

namespace Engine

/-- Converts the fonts of a content that belongs to a node, under the tags in effect at the
    node, and those of its footnotes that have left their place. -/
def convertContent (id : DefinitionId) (inlines : List Inline) : Engine Unit := do
  let c ← get
  let tags ← ofOption (c.effectiveTags? id)
  let document := (← definition id).document
  let c := c.warnAll ((Inline.typedFontsList tags inlines).filterMap c.fonts.warning?)
  let c := c.modifyContent id fun content => content.resolveFonts (Inline.remap c.fonts tags)
  set (c.rerouteFootnotes document (Inline.footnotes (Inline.remapList c.fonts tags inlines)))

/-- The font pass of a content that belongs to a node: `targets` handles the definitions that
    its commands stand for. -/
def convert (targets : List DefinitionId → Engine Unit) (id : DefinitionId)
    (content : Content) : Engine Unit :=
  match content.stage with
  | .unparsed => fail (.ordering id)
  | .fullyResolved _ => pure ()
  | .commandsResolved inlines => do
    targets (Inline.targets inlines)
    convertContent id inlines

/-- The font pass of a node, where `handle` is the pass of other nodes. -/
def fontPass (handle : DefinitionId → Engine Unit) (id : DefinitionId) : Engine Unit := do
  match (← definition id).kind with
  | .stanza content | .paragraph content => convert (fun ids => ids.forM handle) id content
  | .section body =>
    runAll (body.title.toList.map (convert (fun ids => runAll (ids.map handle)) id)
      ++ body.children.map handle)
  | .partReference reference =>
    match reference.target with
    | some target => handle target
    | none => fail (.ordering id)
  | .boolean _ | .integer _ | .multilingual _ => pure ()

/-- The font pass of a node, nested at most `n` deep. -/
def handleFonts : Nat → DefinitionId → Engine Unit
  | 0, _ => endless
  | n + 1, id => do
    nested (.fonts id (← definition id).key) (fontPass (handleFonts n) id)

/-- Both passes for the root of every version of a document; the first error is kept. -/
def resolveDocument (n : Nat) (id : DocumentId) : Engine Unit := do
  let document ← ofOption ((← get).document? id)
  runAll (document.versions.map fun version => do
    handleCommands n version.root
    handleFonts n version.root)

/-- Deeper than any nesting under a depth limit of 64 bits. -/
def ampleDepth : Nat :=
  Text.unsignedBound + 1

end Engine

end Rubric
