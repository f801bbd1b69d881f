/-
  Rubric — contexts in which one document reads otherwise.

  * `Context.redact document c`: the context with the source texts of the document
    blank;
  * `Context.WrittenAlike document c c'`: all that was written in one context was
    written in the other, but for such texts.  Keys, settings and tags in effect
    are the same then (**`WrittenAlike.lookup?`**, `WrittenAlike.effectiveTags?`), and
    so are definitions outside the document (**`WrittenAlike.definition?`**).
-/
import Rubric.Proofs.Concur
import Rubric.Proofs.Unresolved

namespace Rubric

open Context

variable {c c' c₁ c₁' : Context} {document : DocumentId} {x : DefinitionId}

/-! ## Redaction -/

/-- The definition, with its texts blank if it belongs to the document. -/
def Definition.redact (document : DocumentId) (d : Definition) : Definition :=
  if d.document = some document then
    { d with kind := d.kind.mapContents fun _ => .ofSource "" }
  else d

/-- The context with the source texts of the document blank. -/
def Context.redact (document : DocumentId) (c : Context) : Context :=
  { c with definitions := c.definitions.map (Definition.redact document) }

/-- Definitions that were written alike, but for source texts in the document. -/
def Definition.WrittenAlike (document : DocumentId) (d d' : Definition) : Prop :=
  d'.unresolved.redact document = d.unresolved.redact document

/-- Contexts that were written alike, but for source texts in the document. -/
def Context.WrittenAlike (document : DocumentId) (c c' : Context) : Prop :=
  c'.unresolved.redact document = c.unresolved.redact document

namespace Definition

variable {d d' : Definition}

theorem redact_of_ne (h : d.document ≠ some document) : d.redact document = d :=
  if_neg h

theorem document_redact (d : Definition) : (d.redact document).document = d.document := by
  unfold redact
  split <;> rfl

theorem key_redact (d : Definition) : (d.redact document).key = d.key := by
  unfold redact
  split <;> rfl

theorem parent_redact (d : Definition) : (d.redact document).parent = d.parent := by
  unfold redact
  split <;> rfl

theorem ownTags_redact (d : Definition) : (d.redact document).ownTags = d.ownTags := by
  unfold redact
  split <;> rfl

/-- Values are not blanked. -/
theorem kind_redact_eq_multilingual {runs : RunCollection} :
    (d.redact document).kind = .multilingual runs ↔ d.kind = .multilingual runs := by
  unfold redact
  split
  · cases d.kind <;> simp [DefinitionKind.mapContents]
  · rfl

theorem kind_redact_eq_boolean {value : Bool} :
    (d.redact document).kind = .boolean value ↔ d.kind = .boolean value := by
  unfold redact
  split
  · cases d.kind <;> simp [DefinitionKind.mapContents]
  · rfl

namespace WrittenAlike

variable (h : d.WrittenAlike document d')
include h

theorem document_eq : d'.document = d.document := by
  have hdocument := congrArg Definition.document h
  rwa [document_redact, document_redact] at hdocument

theorem key_eq : d'.key = d.key := by
  have hkey := congrArg Definition.key h
  rwa [key_redact, key_redact] at hkey

theorem kind_eq (hd : d.document ≠ some document) : d'.kind.unresolved = d.kind.unresolved := by
  have hd' : d'.unresolved.document ≠ some document := fun he => hd (h.document_eq ▸ he)
  have hunresolved : d'.unresolved = d.unresolved := by
    rw [← redact_of_ne hd', h, redact_of_ne (show d.unresolved.document ≠ some document from hd)]
  exact congrArg Definition.kind hunresolved

theorem poses : d.kind.Poses d'.kind where
  multilingual runs := by
    have hkind : ∀ d : Definition,
        (d.unresolved.redact document).kind = .multilingual runs ↔ d.kind = .multilingual runs :=
      fun d => kind_redact_eq_multilingual.trans DefinitionKind.unresolved_eq_multilingual
    rw [← hkind, h, hkind]
  boolean value := by
    have hkind : ∀ d : Definition,
        (d.unresolved.redact document).kind = .boolean value ↔ d.kind = .boolean value :=
      fun d => kind_redact_eq_boolean.trans DefinitionKind.unresolved_eq_boolean
    rw [← hkind, h, hkind]

end WrittenAlike

end Definition

/-! ## Contexts that were written alike -/

namespace Context

theorem definition?_redact (c : Context) (x : DefinitionId) :
    (c.redact document).definition? x = (c.definition? x).map (Definition.redact document) := by
  simp [definition?, redact]

theorem tagsWithin_redact (c : Context) (n : Nat) (found : Tags) (x : DefinitionId) :
    (c.redact document).tagsWithin n found x = c.tagsWithin n found x := by
  induction n generalizing found x with
  | zero => rfl
  | succ n ih =>
    simp only [tagsWithin, definition?_redact, ih]
    cases c.definition? x with
    | none => rfl
    | some d =>
      simp only [Option.map_some, Option.bind_eq_bind, Option.bind_some, Definition.ownTags_redact,
        Definition.parent_redact]

theorem effectiveTags?_redact (c : Context) (x : DefinitionId) :
    (c.redact document).effectiveTags? x = c.effectiveTags? x := by
  rw [effectiveTags?, effectiveTags?, tagsWithin_redact]
  simp [redact]

namespace WrittenAlike

theorem of_unresolved_eq (h : c'.unresolved = c.unresolved) : WrittenAlike document c c' := by
  rw [WrittenAlike, h]

theorem symm (h : WrittenAlike document c c') : WrittenAlike document c' c :=
  Eq.symm h

theorem trans {c₂ : Context} (h : WrittenAlike document c c') (h' : WrittenAlike document c' c₂) :
    WrittenAlike document c c₂ :=
  Eq.trans h' h

/-- What has been resolved in the contexts makes no difference to how they were written. -/
theorem congr (h : WrittenAlike document c c') (hc : c₁.unresolved = c.unresolved)
    (hc' : c₁'.unresolved = c'.unresolved) : WrittenAlike document c₁ c₁' := by
  rw [WrittenAlike, hc, hc']
  exact h

section
variable (h : WrittenAlike document c c')
include h

theorem settings_eq : c'.settings = c.settings :=
  show (c'.unresolved.redact document).settings = (c.unresolved.redact document).settings by rw [h]

theorem commands_eq : c'.commands = c.commands :=
  show (c'.unresolved.redact document).commands = (c.unresolved.redact document).commands by rw [h]

theorem fonts_eq : c'.fonts = c.fonts :=
  show (c'.unresolved.redact document).fonts = (c.unresolved.redact document).fonts by rw [h]

theorem analyzers_eq : c'.analyzers = c.analyzers :=
  show (c'.unresolved.redact document).analyzers = (c.unresolved.redact document).analyzers by
    rw [h]

theorem size_eq : c'.definitions.size = c.definitions.size := by
  have hsize := congrArg (fun c : Context => c.definitions.size) h
  simpa only [redact, unresolved, core, Array.size_map] using hsize

theorem lookup? (key : String) (d : Option DocumentId) : c'.lookup? key d = c.lookup? key d := by
  have hlookup : ∀ c : Context,
      (c.unresolved.redact document).lookup? key d = c.lookup? key d :=
    fun c => c.lookup?_core key d
  rw [← hlookup, h, hlookup]

theorem effectiveTags? (x : DefinitionId) : c'.effectiveTags? x = c.effectiveTags? x := by
  have htags : ∀ c : Context,
      (c.unresolved.redact document).effectiveTags? x = c.effectiveTags? x := fun c => by
    rw [effectiveTags?_redact, effectiveTags?_unresolved]
  rw [← htags, h, htags]

theorem definition? {d : Definition} (hd : c.definition? x = some d) :
    ∃ d', c'.definition? x = some d' ∧ d.WrittenAlike document d' := by
  have hx := congrArg (fun c : Context => c.definition? x) h
  simp only [definition?_redact, definition?_unresolved, hd, Option.map_some] at hx
  obtain ⟨d₁, hd₁, he⟩ := Option.map_eq_some_iff.1 hx
  obtain ⟨d', hd', rfl⟩ := Option.map_eq_some_iff.1 hd₁
  exact ⟨d', hd', he⟩

theorem definition?_none (hd : c.definition? x = none) : c'.definition? x = none := by
  rcases hd' : c'.definition? x with _ | d'
  · rfl
  · obtain ⟨d, hd'', -⟩ := h.symm.definition? hd'
    cases hd.symm.trans hd''

end

end WrittenAlike

end Context

end Rubric
