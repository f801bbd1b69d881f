/-
  Rubric — the text that definitions and inlines stand for.

  Rendering yields segments: pieces of text, each with the font that it is
  still typed in, if any.  Their texts make the plain text; their texts, each
  converted from its font, make the normalized text.

  * `Inline.segments`: an inline inside text with given tags; `segmentsOf` says
    what a definition stands for;
  * `Context.segments?`: a definition.  Definitions may stand for each other;
    a chain with more of them than the context has does not end, and the
    definition has no text;
  * `Segment.plain`, `FontRegistry.normalize`, `FontRegistry.warnings`;
  * `Context.text?`, `Context.normalizedText?`, `Context.rows?`.
-/
import Rubric.Context.Basic
import Rubric.Inline.Source

namespace Rubric

/-! ## Segments -/

/-- A piece of text and the font it is still typed in. -/
structure Segment where
  text : String
  font : Option String := none
  deriving DecidableEq, Repr

/-- The text of segments as it is. -/
def Segment.plain (segments : List Segment) : String :=
  String.join (segments.map Segment.text)

namespace FontRegistry

/-- The Unicode text of a segment. -/
def normalizeSegment (fonts : FontRegistry) (segment : Segment) : String :=
  match segment.font with
  | some font => fonts.convert font segment.text
  | none => segment.text

/-- The Unicode text of segments. -/
def normalize (fonts : FontRegistry) (segments : List Segment) : String :=
  String.join (segments.map fonts.normalizeSegment)

/-- The warning that a font is not registered, if it is not. -/
def warning? (fonts : FontRegistry) (name : String) : Option Warning :=
  if (fonts.get? name).isSome then none else some (.unregisteredFont name)

/-- The warnings given when segments are normalized. -/
def warnings (fonts : FontRegistry) (segments : List Segment) : List Warning :=
  segments.filterMap fun segment => segment.font.bind fonts.warning?

end FontRegistry

/-! ## Inlines -/

namespace Inline

mutual

/-- The segments of an inline inside text with the tags `enclosing`.  A command that is not
    executed stands for its markup. -/
def segments (segmentsOf : DefinitionId → Option (List Segment)) (enclosing : Tags) :
    Inline → Option (List Segment)
  | run text own => some [{ text, font := (own.inherit enclosing).typedFont? }]
  | span inlines own => segmentsList segmentsOf (own.inherit enclosing) inlines
  | command name kind parameters own evaluation =>
    let tags := own.inherit enclosing
    segmentsEvaluation segmentsOf tags
      [{ text := (command name kind parameters own evaluation).source }]
      (fun i => segmentsAt segmentsOf tags i parameters) evaluation

/-- The segments of inlines in order. -/
def segmentsList (segmentsOf : DefinitionId → Option (List Segment)) (enclosing : Tags) :
    List Inline → Option (List Segment)
  | [] => some []
  | inline :: rest => do
    let first ← inline.segments segmentsOf enclosing
    let others ← segmentsList segmentsOf enclosing rest
    return first ++ others

/-- The segments of the inline at a place in a list; there are none behind its end. -/
def segmentsAt (segmentsOf : DefinitionId → Option (List Segment)) (enclosing : Tags) :
    Nat → List Inline → Option (List Segment)
  | _, [] => some []
  | 0, inline :: _ => inline.segments segmentsOf enclosing
  | i + 1, _ :: rest => segmentsAt segmentsOf enclosing i rest

/-- The segments of a command with the tags `tags`: what it is written as while it is
    pending, then those of its output. -/
def segmentsEvaluation (segmentsOf : DefinitionId → Option (List Segment)) (tags : Tags)
    (pending : List Segment) (ofParameter : Nat → Option (List Segment)) :
    Evaluation → Option (List Segment)
  | .pending => some pending
  | .evaluated output => segmentsOutput segmentsOf tags ofParameter output
  | .noted output _ _ => segmentsOutput segmentsOf tags ofParameter output

/-- The segments of an output. -/
def segmentsOutput (segmentsOf : DefinitionId → Option (List Segment)) (tags : Tags)
    (ofParameter : Nat → Option (List Segment)) : Output → Option (List Segment)
  | .definition id => segmentsOf id
  | .parameter i => ofParameter i
  | .inline inline => inline.segments segmentsOf tags

end

end Inline

/-- The segments of a content under the tags in effect.  An unread source stands for
    itself. -/
def Content.segments (segmentsOf : DefinitionId → Option (List Segment)) (tags : Tags)
    (content : Content) : Option (List Segment) :=
  match content.stage with
  | .unparsed => some [{ text := content.source, font := tags.typedFont? }]
  | .commandsResolved inlines | .fullyResolved inlines =>
    Inline.segmentsList segmentsOf tags inlines

/-! ## Definitions -/

namespace Context

/-- The segments of a multilingual value as it stands: its default run, or its first one. -/
def valueSegments (runs : RunCollection) : List Segment :=
  match (runs.findKnown? .default).or runs.runs[0]? with
  | some run => [{ text := run.text, font := run.tags.typedFont? }]
  | none => []

/-- The segments of a definition from which at most `n` definitions stand for each other in
    a chain.  The parts of a section are lines. -/
def segmentsWithin (c : Context) : Nat → DefinitionId → Option (List Segment)
  | 0, _ => none
  | n + 1, id => do
    let definition ← c.definition? id
    match definition.kind with
    | .stanza content | .paragraph content =>
      content.segments (c.segmentsWithin n) (← c.effectiveTags? id)
    | .section body =>
      let tags ← c.effectiveTags? id
      let title ← body.title.toList.mapM fun title => title.segments (c.segmentsWithin n) tags
      let children ← body.children.mapM (c.segmentsWithin n)
      return [{ text := "\n" }].intercalate (title ++ children)
    | .partReference reference =>
      match reference.target with
      | some target => c.segmentsWithin n target
      | none => return []
    | .boolean value => return [{ text := if value then "true" else "false" }]
    | .integer value => return [{ text := toString value }]
    | .multilingual runs => return valueSegments runs

/-- The segments of a definition. -/
def segments? (c : Context) (id : DefinitionId) : Option (List Segment) :=
  c.segmentsWithin c.definitions.size id

/-- The segments of an inline inside text with the tags `enclosing`. -/
def inlineSegments? (c : Context) (enclosing : Tags) (inline : Inline) :
    Option (List Segment) :=
  inline.segments c.segments? enclosing

/-- The text of a definition. -/
def text? (c : Context) (id : DefinitionId) : Option String :=
  (c.segments? id).map Segment.plain

/-- The text of a definition in Unicode. -/
def normalizedText? (c : Context) (id : DefinitionId) : Option String :=
  (c.segments? id).map c.fonts.normalize

/-- The text of an inline. -/
def inlineText? (c : Context) (inline : Inline) : Option String :=
  (c.inlineSegments? .unset inline).map Segment.plain

/-- The text of an inline in Unicode, inside text with the tags `enclosing`. -/
def normalizedInlineText? (c : Context) (enclosing : Tags) (inline : Inline) : Option String :=
  (c.inlineSegments? enclosing inline).map c.fonts.normalize

/-! ## Rows -/

/-- The rows of a definition from which at most `n` definitions stand for each other in a
    chain: one for each stanza, paragraph and title. -/
def rowsWithin (c : Context) : Nat → DefinitionId → Option Nat
  | 0, _ => none
  | n + 1, id => do
    let definition ← c.definition? id
    match definition.kind with
    | .stanza _ | .paragraph _ => return 1
    | .section body =>
      let rows ← body.children.mapM (c.rowsWithin n)
      return body.title.toList.length + rows.sum
    | .partReference reference =>
      match reference.target with
      | some target => c.rowsWithin n target
      | none => return 0
    | .boolean _ | .integer _ | .multilingual _ => return 0

/-- The rows of a definition. -/
def rows? (c : Context) (id : DefinitionId) : Option Nat :=
  c.rowsWithin c.definitions.size id

end Context

end Rubric
