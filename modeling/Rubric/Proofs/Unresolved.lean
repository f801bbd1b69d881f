/-
  Rubric — a context with nothing resolved.

  Calls resolve definitions, but what was written stays.  Values are read off
  what was written, so they can be read off any context that a call has left.

  * `Context.unresolved`: the context without its records, with all sources
    unread and no targets found;
  * `lookup?_of_unresolved_eq`, `effectiveTags?_of_unresolved_eq`: what contexts
    have in common that differ in nothing else;
  * **`valueWithin_of_unresolved_eq`**: the value of a definition is that of what
    the definition has become.
-/
import Rubric.Proofs.Semantics

namespace Rubric

/-! ## Unresolved definitions -/

/-- What the definition holds, with nothing resolved. -/
def DefinitionKind.unresolved : DefinitionKind → DefinitionKind
  | .partReference reference => .partReference { reference with target := none }
  | kind => kind.mapContents fun content => .ofSource content.source

/-- The definition with nothing resolved and no references. -/
def Definition.unresolved (d : Definition) : Definition :=
  { d with references := [], kind := d.kind.unresolved }

namespace DefinitionKind

theorem unresolved_mapContents {f : Content → Content}
    (hf : ∀ content, (f content).source = content.source) (kind : DefinitionKind) :
    (kind.mapContents f).unresolved = kind.unresolved := by
  rcases kind with ⟨_ | title, _⟩ | content | content | _ | _ | _ | _ <;>
    simp [unresolved, mapContents, hf]

theorem unresolved_setTarget (target : DefinitionId) (kind : DefinitionKind) :
    (kind.setTarget target).unresolved = kind.unresolved := by
  cases kind <;> rfl

theorem sources_unresolved (kind : DefinitionKind) :
    kind.unresolved.contents.map Content.source = kind.contents.map Content.source := by
  rcases kind with ⟨_ | title, _⟩ | content | content | _ | _ | _ | _ <;> rfl

theorem children_unresolved (kind : DefinitionKind) : kind.unresolved.children = kind.children := by
  cases kind <;> rfl

theorem children_eq_of_unresolved_eq {kind kind' : DefinitionKind}
    (h : kind'.unresolved = kind.unresolved) : kind'.children = kind.children := by
  rw [← children_unresolved, h, children_unresolved]

theorem unresolved_eq_multilingual {kind : DefinitionKind} {runs : RunCollection} :
    kind.unresolved = .multilingual runs ↔ kind = .multilingual runs := by
  cases kind <;> simp [unresolved, mapContents]

theorem unresolved_eq_boolean {kind : DefinitionKind} {value : Bool} :
    kind.unresolved = .boolean value ↔ kind = .boolean value := by
  cases kind <;> simp [unresolved, mapContents]

end DefinitionKind

/-! ## Unresolved contexts -/

namespace Context

variable {c c₀ c' : Context} {id x : DefinitionId}

/-- The context without its records and with nothing resolved. -/
def unresolved (c : Context) : Context :=
  { c.core with definitions := c.definitions.map Definition.unresolved }

@[simp]
theorem definition?_unresolved (c : Context) (id : DefinitionId) :
    c.unresolved.definition? id = (c.definition? id).map Definition.unresolved := by
  simp [definition?, unresolved]

/-- Tags in effect were written. -/
theorem effectiveTags?_unresolved (c : Context) (x : DefinitionId) :
    c.unresolved.effectiveTags? x = c.effectiveTags? x := by
  have hwithin : ∀ n found x, c.unresolved.tagsWithin n found x = c.tagsWithin n found x := by
    intro n
    induction n with
    | zero => exact fun _ _ => rfl
    | succ n ih =>
      intro found x
      simp only [tagsWithin, definition?_unresolved, ih]
      cases c.definition? x <;> rfl
  have hsize : c.unresolved.definitions.size = c.definitions.size := Array.size_map
  rw [effectiveTags?, effectiveTags?, hsize, hwithin]

theorem unresolved_of_core_eq (h : c'.core = c.core) : c'.unresolved = c.unresolved := by
  have hcore : ∀ c : Context,
      c.unresolved =
        { c.core with definitions := c.core.definitions.map Definition.unresolved } := by
    intro c
    have hdefinitions : (c.definitions.map Definition.core).map Definition.unresolved =
        c.definitions.map Definition.unresolved := by
      rw [Array.map_map]; rfl
    rw [unresolved]
    congr 1
    exact hdefinitions.symm
  rw [hcore, hcore, h]

/-- A change of one definition's kind that leaves what was written. -/
theorem unresolved_modifyKind {f : DefinitionKind → DefinitionKind}
    (hf : ∀ kind, (f kind).unresolved = kind.unresolved) :
    (c.modifyDefinition id fun d => { d with kind := f d.kind }).unresolved = c.unresolved := by
  simp only [unresolved, core, modifyDefinition]
  rw [map_modify_of_eq]
  intro d
  simp [Definition.unresolved, hf]

/-- To handle a text writes nothing. -/
theorem unresolved_resolveCommands (c : Context) (id : DefinitionId) (l : List Inline) :
    (c.modifyContent id fun content => content.resolveCommands l).unresolved = c.unresolved := by
  rw [modifyContent_eq]
  exact unresolved_modifyKind (DefinitionKind.unresolved_mapContents fun _ => rfl)

/-- Nor does it to set a target. -/
theorem unresolved_setTarget (c : Context) (id target : DefinitionId) :
    ((c.addReference target id).setTarget id target).unresolved = c.unresolved := by
  rw [setTarget_eq]
  exact (unresolved_modifyKind (DefinitionKind.unresolved_setTarget target)).trans
    (unresolved_of_core_eq (c.core_addReference target id))

section
variable (h : c.unresolved = c₀.unresolved)
include h

theorem lookup?_of_unresolved_eq (key : String) (document : Option DocumentId) :
    c.lookup? key document = c₀.lookup? key document := by
  have hlookup : ∀ c : Context, c.lookup? key document = c.unresolved.lookup? key document :=
    fun c => (c.lookup?_core key document).symm
  rw [hlookup, h, ← hlookup]

theorem settings_of_unresolved_eq : c.settings = c₀.settings :=
  show c.unresolved.settings = c₀.unresolved.settings by rw [h]

theorem commands_of_unresolved_eq : c.commands = c₀.commands :=
  show c.unresolved.commands = c₀.unresolved.commands by rw [h]

theorem size_of_unresolved_eq : c.definitions.size = c₀.definitions.size := by
  have hsize := congrArg (fun c : Context => c.definitions.size) h
  simpa only [unresolved, core, Array.size_map] using hsize

/-- Definitions were written the same. -/
theorem definition?_of_unresolved_eq {d : Definition} (hd : c.definition? x = some d) :
    ∃ d₀, c₀.definition? x = some d₀ ∧ d₀.unresolved = d.unresolved := by
  have hmap : (c₀.definition? x).map Definition.unresolved = some d.unresolved := by
    rw [← definition?_unresolved, ← h, definition?_unresolved, hd, Option.map_some]
  exact Option.map_eq_some_iff.1 hmap

/-- Texts have the sources that were written. -/
theorem content_of_unresolved_eq {d : Definition} {content : Content}
    (hd : c.definition? x = some d) (hmem : content ∈ d.kind.contents) :
    ∃ d₀, c₀.definition? x = some d₀ ∧ d₀.document = d.document ∧
      ∃ content₀ ∈ d₀.kind.contents, content₀.source = content.source := by
  obtain ⟨d₀, hd₀, he⟩ := definition?_of_unresolved_eq h hd
  have hkind : d₀.kind.unresolved = d.kind.unresolved := congrArg Definition.kind he
  have hsources : d₀.kind.contents.map Content.source = d.kind.contents.map Content.source := by
    rw [← DefinitionKind.sources_unresolved, hkind, DefinitionKind.sources_unresolved]
  have hsource : content.source ∈ d₀.kind.contents.map Content.source := by
    rw [hsources]; exact List.mem_map_of_mem hmem
  exact ⟨d₀, hd₀, show d₀.unresolved.document = d.unresolved.document by rw [he],
    List.mem_map.1 hsource⟩

theorem effectiveTags?_of_unresolved_eq (x : DefinitionId) :
    c.effectiveTags? x = c₀.effectiveTags? x := by
  rw [← effectiveTags?_unresolved, h, effectiveTags?_unresolved]

end

/-! ## Values -/

section
variable {valueOf : DefinitionId → Option String} {document : Option DocumentId}
  {language : Option Language}

/-- The value of what a definition holds is that of what was written. -/
theorem kindValue_unresolved (c : Context) (kind : DefinitionKind) :
    c.kindValue valueOf document language kind.unresolved =
      c.kindValue valueOf document language kind := by
  rcases kind with ⟨_ | title, _⟩ | content | content | _ | _ | _ | _ <;> rfl

variable (h : c.unresolved = c₀.unresolved)
include h

/-- What is no multilingual value was written as none. -/
theorem definition?_not_multilingual {target : DefinitionId} {d : Definition}
    (hd : c.definition? target = some d) (hm : ¬ d.kind.IsMultilingual) :
    ∃ d₀, c₀.definition? target = some d₀ ∧ ∀ runs, d₀.kind ≠ .multilingual runs := by
  obtain ⟨d₀, hd₀, he⟩ := definition?_of_unresolved_eq h hd
  have hkind : d₀.kind.unresolved = d.kind.unresolved := congrArg Definition.kind he
  refine ⟨d₀, hd₀, fun runs hk => hm ⟨runs, DefinitionKind.unresolved_eq_multilingual.1 ?_⟩⟩
  rw [← hkind, hk]; rfl

/-- A multilingual value stays what it is. -/
theorem definition?_multilingual {target : DefinitionId} {d : Definition} {runs : RunCollection}
    (hd : c.definition? target = some d) (hk : d.kind = .multilingual runs) :
    ∃ d₀, c₀.definition? target = some d₀ ∧ d₀.kind = .multilingual runs := by
  obtain ⟨d₀, hd₀, he⟩ := definition?_of_unresolved_eq h hd
  have hkind : d₀.kind.unresolved = d.kind.unresolved := congrArg Definition.kind he
  refine ⟨d₀, hd₀, DefinitionKind.unresolved_eq_multilingual.1 (hkind.trans ?_)⟩
  rw [hk]; rfl

theorem runFor_of_unresolved_eq (runs : RunCollection) :
    c.runFor language runs = c₀.runFor language runs := by
  unfold runFor
  rw [settings_of_unresolved_eq h]

theorem insertedValue_of_definition {key : String} {target : DefinitionId} {d : Definition}
    (hl : c.lookup? key document = some target) (hd : c.definition? target = some d)
    (hm : ¬ d.kind.IsMultilingual) :
    c₀.insertedValue valueOf document language key = valueOf target := by
  obtain ⟨d₀, hd₀, hk⟩ := definition?_not_multilingual h hd hm
  rw [lookup?_of_unresolved_eq h] at hl
  simp only [insertedValue, hl, hd₀, Option.bind_eq_bind, Option.bind_some]

theorem insertedValue_of_runs {key : String} {target : DefinitionId} {d : Definition}
    {runs : RunCollection} (hl : c.lookup? key document = some target)
    (hd : c.definition? target = some d) (hk : d.kind = .multilingual runs) :
    c₀.insertedValue valueOf document language key =
      (c₀.runFor language runs).map Run.text := by
  obtain ⟨d₀, hd₀, hk₀⟩ := definition?_multilingual h hd hk
  rw [lookup?_of_unresolved_eq h] at hl
  simp only [insertedValue, hl, hd₀, hk₀, Option.bind_eq_bind, Option.bind_some]

theorem separatorValue_of_settings (hl : c.lookup? Invocation.separatorKey document = none) :
    c₀.separatorValue valueOf document language = some c₀.settings.lineSeparator := by
  rw [lookup?_of_unresolved_eq h] at hl
  simp only [separatorValue, hl]

theorem separatorValue_of_definition {target : DefinitionId} {d : Definition}
    (hl : c.lookup? Invocation.separatorKey document = some target)
    (hd : c.definition? target = some d) (hm : ¬ d.kind.IsMultilingual) :
    c₀.separatorValue valueOf document language = valueOf target := by
  obtain ⟨d₀, hd₀, hk⟩ := definition?_not_multilingual h hd hm
  rw [lookup?_of_unresolved_eq h] at hl
  simp only [separatorValue, hl, hd₀, Option.bind_eq_bind, Option.bind_some]

theorem separatorValue_of_runs {target : DefinitionId} {d : Definition} {runs : RunCollection}
    (hl : c.lookup? Invocation.separatorKey document = some target)
    (hd : c.definition? target = some d) (hk : d.kind = .multilingual runs) :
    c₀.separatorValue valueOf document language =
      some (((c₀.runFor language runs).map Run.text).getD c₀.settings.lineSeparator) := by
  obtain ⟨d₀, hd₀, hk₀⟩ := definition?_multilingual h hd hk
  rw [lookup?_of_unresolved_eq h] at hl
  simp only [separatorValue, hl, hd₀, hk₀, Option.bind_eq_bind, Option.bind_some]

/-- **The value of a definition is that of what the definition has become.** -/
theorem valueWithin_of_unresolved_eq {d : Definition} {tags : Tags} (n : Nat)
    (hd : c.definition? x = some d) (htags : c.effectiveTags? x = some tags) :
    c₀.valueWithin (n + 1) x =
      c₀.kindValue (c₀.valueWithin n) d.document tags.language d.kind := by
  obtain ⟨d₀, hd₀, he⟩ := definition?_of_unresolved_eq h hd
  have hdocument : d₀.document = d.document :=
    show d₀.unresolved.document = d.unresolved.document by rw [he]
  have hkind : d₀.kind.unresolved = d.kind.unresolved := congrArg Definition.kind he
  rw [effectiveTags?_of_unresolved_eq h] at htags
  simp only [valueWithin, hd₀, htags, Option.bind_eq_bind, Option.bind_some]
  rw [← kindValue_unresolved, hkind, kindValue_unresolved, hdocument]

/-- The value of a definition, from the values of the others. -/
theorem value?_of_unresolved_eq {d : Definition} {tags : Tags} {v : String}
    (hd : c.definition? x = some d) (htags : c.effectiveTags? x = some tags)
    (hv : c₀.kindValue c₀.value? d.document tags.language d.kind = some v) :
    c₀.value? x = some v :=
  value?_of_within ((valueWithin_of_unresolved_eq h c₀.definitions.size hd htags).trans hv)

end

end Context

end Rubric
