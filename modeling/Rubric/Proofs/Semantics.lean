/-
  Rubric — the value of a definition, read off what was written.

  Nothing is executed and nothing is kept: the value of a text is found by
  substitution, anew wherever it is asked for.  Only commands that insert
  definitions, choose between texts and join lines have values here.

  * `Inline.denote`: the value of an inline; `valueOf` says what a definition
    stands for;
  * `Context.value?`: the value of a definition.  A chain of more definitions
    than the context has does not end, and the definition has no value;
  * `Inline.denote_mono`, `kindValue_mono`: with more values of other definitions
    there are no other values;
  * **`value?_of_within`**: a value that is found in any number of rounds is the
    value.
-/
import Rubric.Proofs.Rendering
import Rubric.Resolution.Commands

namespace Rubric

open Text

/-! ## Values of commands -/

namespace Context

variable (c : Context) (valueOf : DefinitionId → Option String) (document : Option DocumentId)
  (language : Option Language)

/-- The run of a multilingual value for a language. -/
def runFor (runs : RunCollection) : Option Run :=
  match language with
  | none => runs.findKnown? .default
  | some language => runs.find? c.settings.equivalence language

/-- The value of the definition under a key. -/
def insertedValue (key : String) : Option String := do
  let target ← c.lookup? key document
  let definition ← c.definition? target
  match definition.kind with
  | .multilingual runs => (c.runFor language runs).map Run.text
  | _ => valueOf target

/-- The value of the separator of lines that gives none. -/
def separatorValue : Option String :=
  match c.lookup? Invocation.separatorKey document with
  | none => some c.settings.lineSeparator
  | some target => do
    let definition ← c.definition? target
    match definition.kind with
    | .multilingual runs =>
      some (((c.runFor language runs).map Run.text).getD c.settings.lineSeparator)
    | _ => valueOf target

/-- The value of lines that are joined with a separator. -/
def linesValue (separator : String) (lines : List String) : Option String :=
  (if separator.isEmpty then c.separatorValue valueOf document language else some separator).map
    fun separator => String.join (lines.intersperse separator)

end Context

/-! ## Values of inlines -/

namespace Inline

variable (c : Context) (valueOf : DefinitionId → Option String) (document : Option DocumentId)
  (language : Option Language)

mutual

/-- The value of an inline in a definition of a document, with a language in effect. -/
def denote : Inline → Option String
  | run text _ => some text
  | span inlines _ => (denoteList inlines).map String.join
  | command _ .definition [key] _ _ => do
    let key ← key.denote
    c.insertedValue valueOf document language (trim key)
  | command _ .ternary [condition, yes, no] _ _ => do
    let truth ← readTruth (← condition.denote)
    if truth then yes.denote else no.denote
  | command _ .lines (separator :: lines) _ _ => do
    let separator ← separator.denote
    let lines ← denoteList lines
    c.linesValue valueOf document language separator lines
  | command _ _ _ _ _ => none

/-- The values of inlines in order. -/
def denoteList : List Inline → Option (List String)
  | [] => some []
  | inline :: rest => do
    let value ← inline.denote
    let values ← denoteList rest
    return value :: values

end

end Inline

/-! ## Values of definitions -/

namespace Context

variable (c : Context) (valueOf : DefinitionId → Option String) (document : Option DocumentId)
  (language : Option Language)

/-- The value of a source text. -/
def sourceValue (source : String) : Option String :=
  match Markup.parse c.commands source with
  | .ok inlines => (Inline.denoteList c valueOf document language inlines).map String.join
  | .error _ => none

/-- The value of what a definition holds.  The parts of a section are lines. -/
def kindValue : DefinitionKind → Option String
  | .stanza content | .paragraph content =>
    c.sourceValue valueOf document language content.source
  | .section body => do
    let title ← body.title.toList.mapM fun title =>
      c.sourceValue valueOf document language title.source
    let children ← body.children.mapM valueOf
    return String.join ((title ++ children).intersperse "\n")
  | .partReference reference => (c.lookup? reference.targetKey document).bind valueOf
  | .boolean value => some (if value then "true" else "false")
  | .integer value => some (toString value)
  | .multilingual runs =>
    some ((((runs.findKnown? .default).or runs.runs[0]?).map Run.text).getD "")

/-- The value of a definition from which at most `n` definitions stand for each other in a
    chain. -/
def valueWithin (c : Context) : Nat → DefinitionId → Option String
  | 0, _ => none
  | n + 1, id => do
    let definition ← c.definition? id
    let tags ← c.effectiveTags? id
    c.kindValue (c.valueWithin n) definition.document tags.language definition.kind

/-- The value of a definition. -/
def value? (c : Context) (id : DefinitionId) : Option String :=
  c.valueWithin c.definitions.size id

end Context

/-! ## Equations -/

section
variable {c : Context} {valueOf f g : DefinitionId → Option String} {document : Option DocumentId}
  {language : Option Language}

namespace Inline

theorem denoteList_eq (l : List Inline) :
    denoteList c valueOf document language l = l.mapM (denote c valueOf document language) := by
  induction l with
  | nil => rfl
  | cons i l ih => rw [denoteList, ih, List.mapM_cons]

theorem denote_run (text : String) (own : Tags) :
    denote c valueOf document language (run text own) = some text := by
  rw [denote]

theorem denote_span {l : List Inline} {own : Tags} :
    denote c valueOf document language (span l own) =
      (l.mapM (denote c valueOf document language)).map String.join := by
  rw [denote, denoteList_eq]

theorem denote_definition {name : String} {key : Inline} {own : Tags} {evaluation : Evaluation} :
    denote c valueOf document language (command name .definition [key] own evaluation) =
      (denote c valueOf document language key).bind fun key =>
        c.insertedValue valueOf document language (trim key) := by
  rw [denote]; rfl

theorem denote_ternary {name : String} {condition yes no : Inline} {own : Tags}
    {evaluation : Evaluation} :
    denote c valueOf document language (command name .ternary [condition, yes, no] own evaluation) =
      (denote c valueOf document language condition).bind fun text =>
        (readTruth text).bind fun truth =>
          if truth then denote c valueOf document language yes
          else denote c valueOf document language no := by
  rw [denote]; rfl

theorem denote_lines {name : String} {separator : Inline} {lines : List Inline} {own : Tags}
    {evaluation : Evaluation} :
    denote c valueOf document language (command name .lines (separator :: lines) own evaluation) =
      (denote c valueOf document language separator).bind fun separator =>
        (lines.mapM (denote c valueOf document language)).bind fun lines =>
          c.linesValue valueOf document language separator lines := by
  rw [denote, denoteList_eq]; rfl

/-- Of commands of other kinds, and of those with another number of parameters, there is no
    value. -/
theorem denote_cases (name : String) (kind : CommandKind) (parameters : List Inline) (own : Tags)
    (evaluation : Evaluation) :
    (∃ key, kind = .definition ∧ parameters = [key]) ∨
      (∃ condition yes no, kind = .ternary ∧ parameters = [condition, yes, no]) ∨
      (∃ separator lines, kind = .lines ∧ parameters = separator :: lines) ∨
      ∀ valueOf : DefinitionId → Option String,
        denote c valueOf document language (command name kind parameters own evaluation) =
          none := by
  cases kind
  case definition =>
    rcases parameters with _ | ⟨key, _ | _⟩
    case cons.nil => exact Or.inl ⟨key, rfl, rfl⟩
    all_goals exact Or.inr (Or.inr (Or.inr fun _ => by rw [denote] <;> simp))
  case ternary =>
    rcases parameters with _ | ⟨a, _ | ⟨b, _ | ⟨d, _ | _⟩⟩⟩
    case cons.cons.cons.nil => exact Or.inr (Or.inl ⟨a, b, d, rfl, rfl⟩)
    all_goals exact Or.inr (Or.inr (Or.inr fun _ => by rw [denote] <;> simp))
  case lines =>
    rcases parameters with _ | ⟨separator, lines⟩
    · exact Or.inr (Or.inr (Or.inr fun _ => by rw [denote] <;> simp))
    · exact Or.inr (Or.inr (Or.inl ⟨separator, lines, rfl, rfl⟩))
  all_goals exact Or.inr (Or.inr (Or.inr fun _ => by rw [denote] <;> simp))

end Inline

theorem Context.sourceValue_eq {source : String} {inlines : List Inline}
    (h : Markup.parse c.commands source = .ok inlines) :
    c.sourceValue valueOf document language source =
      (inlines.mapM (Inline.denote c valueOf document language)).map String.join := by
  unfold sourceValue
  rw [h, ← Inline.denoteList_eq]

/-- What is no part reference has a value if its texts and its parts have one. -/
theorem Context.kindValue_of_parts {kind : DefinitionKind}
    (hkind : ∀ reference, kind ≠ .partReference reference)
    (hcontents : ∀ content ∈ kind.contents,
      ∃ v, c.sourceValue valueOf document language content.source = some v)
    (hchildren : ∀ y ∈ kind.children, ∃ v, valueOf y = some v) :
    ∃ v, c.kindValue valueOf document language kind = some v := by
  cases kind with
  | stanza content | paragraph content =>
    exact hcontents content (by simp [DefinitionKind.contents])
  | «section» body =>
    obtain ⟨titles, htitles⟩ := Option.isSome_iff_exists.1
      (mapM_isSome fun title htitle => Option.isSome_iff_exists.2 (hcontents title htitle))
    obtain ⟨children, hchildren⟩ := Option.isSome_iff_exists.1
      (mapM_isSome fun y hy => Option.isSome_iff_exists.2 (hchildren y hy))
    rw [DefinitionKind.contents] at htitles
    rw [DefinitionKind.children] at hchildren
    refine ⟨String.join ((titles ++ children).intersperse "\n"), ?_⟩
    simp only [kindValue, htitles, hchildren, Option.bind_eq_bind, Option.bind_some]
    rfl
  | partReference reference => exact absurd rfl (hkind reference)
  | boolean | integer | multilingual => exact ⟨_, rfl⟩

/-! ## More values of definitions, the same values -/

variable (h : ∀ t v, f t = some v → g t = some v)
include h

namespace Context

theorem insertedValue_mono {key v : String}
    (hv : c.insertedValue f document language key = some v) :
    c.insertedValue g document language key = some v := by
  simp only [insertedValue, Option.bind_eq_bind, Option.bind_eq_some_iff] at hv ⊢
  obtain ⟨target, htarget, definition, hdefinition, hv⟩ := hv
  refine ⟨target, htarget, definition, hdefinition, ?_⟩
  split at hv
  · exact hv
  · exact h target v hv

theorem separatorValue_mono {v : String} (hv : c.separatorValue f document language = some v) :
    c.separatorValue g document language = some v := by
  unfold separatorValue at hv ⊢
  rcases hl : c.lookup? Invocation.separatorKey document with _ | target
  · rw [hl] at hv; exact hv
  · simp only [hl, Option.bind_eq_bind, Option.bind_eq_some_iff] at hv ⊢
    obtain ⟨definition, hdefinition, hv⟩ := hv
    refine ⟨definition, hdefinition, ?_⟩
    split at hv
    · exact hv
    · exact h target v hv

theorem linesValue_mono {separator v : String} {lines : List String}
    (hv : c.linesValue f document language separator lines = some v) :
    c.linesValue g document language separator lines = some v := by
  simp only [linesValue, Option.map_eq_some_iff] at hv ⊢
  obtain ⟨joint, hjoint, hv⟩ := hv
  refine ⟨joint, ?_, hv⟩
  by_cases he : separator.isEmpty
  · rw [if_pos he] at hjoint ⊢
    exact separatorValue_mono h hjoint
  · rw [if_neg he] at hjoint ⊢
    exact hjoint

end Context

theorem Inline.denote_mono {i : Inline} {v : String}
    (hv : denote c f document language i = some v) : denote c g document language i = some v := by
  induction i using induction generalizing v with
  | run text own => rw [denote_run] at hv ⊢; exact hv
  | span l own ih =>
    rw [denote_span, Option.map_eq_some_iff] at hv ⊢
    obtain ⟨values, hvalues, rfl⟩ := hv
    exact ⟨values, mapM_mono (fun i hi v hv => ih i hi hv) hvalues, rfl⟩
  | command name kind parameters own evaluation ih _ =>
    rcases @denote_cases c document language name kind parameters own evaluation with
      ⟨key, rfl, rfl⟩ | ⟨condition, yes, no, rfl, rfl⟩ | ⟨separator, lines, rfl, rfl⟩ | hnone
    · rw [denote_definition, Option.bind_eq_some_iff] at hv ⊢
      obtain ⟨text, htext, hv⟩ := hv
      exact ⟨text, ih key (by simp) htext, Context.insertedValue_mono h hv⟩
    · rw [denote_ternary, Option.bind_eq_some_iff] at hv ⊢
      obtain ⟨text, htext, hv⟩ := hv
      refine ⟨text, ih condition (by simp) htext, ?_⟩
      rw [Option.bind_eq_some_iff] at hv ⊢
      obtain ⟨truth, htruth, hv⟩ := hv
      refine ⟨truth, htruth, ?_⟩
      cases truth
      · exact ih no (by simp) hv
      · exact ih yes (by simp) hv
    · rw [denote_lines, Option.bind_eq_some_iff] at hv ⊢
      obtain ⟨text, htext, hv⟩ := hv
      refine ⟨text, ih separator (by simp) htext, ?_⟩
      rw [Option.bind_eq_some_iff] at hv ⊢
      obtain ⟨values, hvalues, hv⟩ := hv
      have hlines := mapM_mono (fun i hi v hv => ih i (by simp [hi]) hv) hvalues
      exact ⟨values, hlines, Context.linesValue_mono h hv⟩
    · rw [hnone] at hv; cases hv

namespace Context

theorem sourceValue_mono {source v : String}
    (hv : c.sourceValue f document language source = some v) :
    c.sourceValue g document language source = some v := by
  rcases hparse : Markup.parse c.commands source with cause | inlines
  · simp only [sourceValue, hparse] at hv
    cases hv
  · rw [sourceValue_eq hparse, Option.map_eq_some_iff] at hv ⊢
    obtain ⟨values, hvalues, rfl⟩ := hv
    exact ⟨values, mapM_mono (fun i _ v hv => Inline.denote_mono h hv) hvalues, rfl⟩

theorem kindValue_mono {kind : DefinitionKind} {v : String}
    (hv : c.kindValue f document language kind = some v) :
    c.kindValue g document language kind = some v := by
  cases kind with
  | stanza content | paragraph content => exact sourceValue_mono h hv
  | «section» body =>
    simp only [kindValue, Option.bind_eq_bind, Option.bind_eq_some_iff] at hv ⊢
    obtain ⟨title, htitle, children, hchildren, hv⟩ := hv
    have htitle := mapM_mono (fun title _ v hv => sourceValue_mono h hv) htitle
    have hchildren := mapM_mono (fun y _ => h y) hchildren
    exact ⟨title, htitle, children, hchildren, hv⟩
  | partReference reference =>
    simp only [kindValue, Option.bind_eq_some_iff] at hv ⊢
    obtain ⟨target, htarget, hv⟩ := hv
    exact ⟨target, htarget, h target v hv⟩
  | boolean | integer | multilingual => exact hv

end Context

end

namespace Context

variable {c : Context} {x : DefinitionId} {v : String}

theorem valueWithin_step {n m : Nat}
    (h : ∀ x v, c.valueWithin n x = some v → c.valueWithin m x = some v) :
    ∀ x v, c.valueWithin (n + 1) x = some v → c.valueWithin (m + 1) x = some v := by
  intro x v hv
  simp only [valueWithin, Option.bind_eq_bind, Option.bind_eq_some_iff] at hv ⊢
  obtain ⟨d, hd, tags, htags, hv⟩ := hv
  exact ⟨d, hd, tags, htags, kindValue_mono h hv⟩

/-- **A definition that has a value in any number of rounds has that value.** -/
theorem value?_of_within {n : Nat} (h : c.valueWithin n x = some v) : c.value? x = some v := by
  refine enough (g := c.valueWithin) (fun _ => rfl) valueWithin_step ?_ h
  intro n x v h
  rcases n with _ | n
  · cases h
  · simp only [valueWithin, Option.bind_eq_bind, Option.bind_eq_some_iff] at h
    obtain ⟨d, hd, -⟩ := h
    exact index_lt_of_definition? hd

end Context

end Rubric
