/-
  Rubric — what the command pass leaves as it is.

  * `Content.Advances`, `DefinitionKind.Advances`: the commands of an unread text
    are handled, or a part reference that has no target gets one; nothing else
    changes in what a definition holds;
  * `Context.Extends c c'`: besides such advances, records of `c` have grown at
    the end, and shared truth values are new;
  * **`extends_of_commands`**: the command pass of a definition does no more than
    this, whether it ends with a value or an error.
-/
import Rubric.Proofs.Numbering

namespace Rubric

open Context

variable {c c' c₁ : Context} {id : DefinitionId}

/-! ## Advances -/

/-- A text stays, or it is unread and its commands are handled. -/
inductive Content.Advances : Content → Content → Prop
  | same (content : Content) : Advances content content
  | handle {content : Content} (inlines : List Inline) :
      content.stage = .unparsed → Advances content (content.resolveCommands inlines)

/-- The texts of a definition advance, or a part reference that has no target gets one. -/
inductive DefinitionKind.Advances : DefinitionKind → DefinitionKind → Prop
  | contents {kind : DefinitionKind} {f : Content → Content} :
      (∀ content ∈ kind.contents, content.Advances (f content)) →
      Advances kind (kind.mapContents f)
  | target {reference : PartReference} (target : DefinitionId) :
      reference.target = none →
      Advances (.partReference reference)
        (.partReference { reference with target := some target })

/-- A handled text stays. -/
theorem Content.Advances.eq_of_isHandled {content content' : Content}
    (h : content.Advances content') (hh : content.IsHandled) : content' = content := by
  cases h with
  | same => rfl
  | handle _ hunparsed => exact absurd hunparsed hh

/-- An unread text was so before. -/
theorem Content.Advances.eq_of_not_isHandled {content content' : Content}
    (h : content.Advances content') (hunread : ¬ content'.IsHandled) : content' = content := by
  cases h with
  | same => rfl
  | handle inlines => exact absurd (content.isHandled_resolveCommands inlines) hunread

/-- An advance leaves an unread text alone, or a later one replaces it. -/
theorem Content.Advances.resolveCommands {content content' : Content}
    (h : content.Advances content') (hunparsed : content.stage = .unparsed)
    (inlines : List Inline) : content.Advances (content'.resolveCommands inlines) := by
  cases h <;> exact .handle inlines hunparsed

theorem Content.Advances.trans {content content₁ content₂ : Content}
    (h : content.Advances content₁) (h' : content₁.Advances content₂) :
    content.Advances content₂ := by
  cases h with
  | same => exact h'
  | handle inlines hunparsed =>
    rw [h'.eq_of_isHandled (content.isHandled_resolveCommands inlines)]
    exact .handle inlines hunparsed

namespace DefinitionKind

theorem mapContents_eq_partReference {f : Content → Content} {kind : DefinitionKind}
    {reference : PartReference} (h : kind.mapContents f = .partReference reference) :
    kind = .partReference reference := by
  cases kind <;> simp_all [mapContents]

namespace Advances

theorem refl (kind : DefinitionKind) : kind.Advances kind := by
  have h : kind.Advances (kind.mapContents fun content => content) :=
    .contents fun content _ => .same content
  rwa [mapContents_eq_self fun _ _ => rfl] at h

theorem trans {k k₁ k₂ : DefinitionKind} (h : k.Advances k₁) (h' : k₁.Advances k₂) :
    k.Advances k₂ := by
  cases h with
  | @contents _ f hf =>
    generalize hk : k.mapContents f = k₁ at h'
    cases h' with
    | @contents _ g hg =>
      subst hk
      rw [mapContents_mapContents]
      refine .contents fun content hcontent => (hf content hcontent).trans (hg _ ?_)
      rw [contents_mapContents]
      exact List.mem_map_of_mem hcontent
    | target target hnone =>
      rw [mapContents_eq_partReference hk]
      exact .target target hnone
  | @target reference target hnone =>
    generalize hk : DefinitionKind.partReference { reference with target := some target } = k₁ at h'
    cases h' with
    | contents => subst hk; exact .target target hnone
    | target _ hnone' =>
      cases hk
      cases hnone'

variable {kind kind' : DefinitionKind} (h : kind.Advances kind')
include h

/-- The commands of unread texts are handled, whatever has become of the texts. -/
theorem resolveCommands (hunparsed : ∀ content ∈ kind.contents, content.stage = .unparsed)
    (inlines : List Inline) :
    kind.Advances (kind'.mapContents fun content => content.resolveCommands inlines) := by
  cases h with
  | contents hf =>
    rw [mapContents_mapContents]
    exact .contents fun content hcontent =>
      (hf content hcontent).resolveCommands (hunparsed content hcontent) inlines
  | target target hnone => exact .target target hnone

/-- What a text was before. -/
theorem exists_content {content' : Content} (hcontent' : content' ∈ kind'.contents) :
    ∃ content ∈ kind.contents, content.Advances content' := by
  cases h with
  | contents hf =>
    obtain ⟨content, hcontent, rfl⟩ := mem_contents_mapContents.1 hcontent'
    exact ⟨content, hcontent, hf content hcontent⟩
  | target => cases hcontent'

/-- A truth value stays. -/
theorem boolean {value : Bool} (hk : kind = .boolean value) : kind' = .boolean value := by
  cases h with
  | contents => rw [hk]; rfl
  | target => cases hk

end Advances

end DefinitionKind

/-! ## Extensions -/

/-- A global definition of a truth value under its name, with no parent. -/
def Definition.IsTruthValue (d : Definition) : Prop :=
  ∃ value references, d =
    { key := some (if value then "True" else "False"), references, kind := .boolean value }

namespace Context

/-- The second context is the first one, except that definitions have advanced, records have
    grown at the end, warnings were given, and global truth values were added. -/
structure Extends (c c' : Context) : Prop where
  commands : c'.commands = c.commands
  fonts : c'.fonts = c.fonts
  analyzers : c'.analyzers = c.analyzers
  settings : c'.settings = c.settings
  depth : c'.depth = c.depth
  /-- Documents change in their footnotes at most, so their keys stay. -/
  documents : c'.documents.map Document.core = c.documents.map Document.core
  globalKeys : ∀ key, key ≠ "True" → key ≠ "False" → c'.globalKeys.get? key = c.globalKeys.get? key
  footnotes : ∀ d, c.footnotes d <+: c'.footnotes d
  drawn : ∀ d, c.drawn d ≤ c'.drawn d
  old : ∀ {x d}, c.definition? x = some d → ∃ references kind,
    c'.definition? x = some { d with references, kind } ∧
      d.references <+: references ∧ d.kind.Advances kind
  new : ∀ {x d'}, c.definition? x = none → c'.definition? x = some d' → d'.IsTruthValue

/-- A change of records only, if it leaves the definitions. -/
theorem Extends.of_core_eq (hcore : c'.core = c.core)
    (hdefinitions : c'.definitions = c.definitions) (hdepth : c'.depth = c.depth)
    (hfootnotes : ∀ d, c.footnotes d <+: c'.footnotes d) (hdrawn : ∀ d, c.drawn d ≤ c'.drawn d) :
    Extends c c' where
  commands := show c'.core.commands = c.core.commands by rw [hcore]
  fonts := show c'.core.fonts = c.core.fonts by rw [hcore]
  analyzers := show c'.core.analyzers = c.core.analyzers by rw [hcore]
  settings := show c'.core.settings = c.core.settings by rw [hcore]
  depth := hdepth
  documents := show c'.core.documents = c.core.documents by rw [hcore]
  globalKeys key _ _ := show c'.core.globalKeys.get? key = c.core.globalKeys.get? key by rw [hcore]
  footnotes := hfootnotes
  drawn := hdrawn
  old := by
    intro x d hd
    rw [definition?_of_definitions_eq hdefinitions]
    exact ⟨d.references, d.kind, hd, List.prefix_rfl, .refl _⟩
  new := by
    intro x d' hnone hd'
    rw [definition?_of_definitions_eq hdefinitions] at hd'
    cases hnone.symm.trans hd'

theorem Extends.refl (c : Context) : Extends c c :=
  .of_core_eq rfl rfl rfl (fun _ => List.prefix_rfl) fun _ => Nat.le_refl _

theorem Extends.trans {c₂ : Context} (h : Extends c c₁) (h' : Extends c₁ c₂) : Extends c c₂ where
  commands := h'.commands.trans h.commands
  fonts := h'.fonts.trans h.fonts
  analyzers := h'.analyzers.trans h.analyzers
  settings := h'.settings.trans h.settings
  depth := h'.depth.trans h.depth
  documents := h'.documents.trans h.documents
  globalKeys key ht hf := (h'.globalKeys key ht hf).trans (h.globalKeys key ht hf)
  footnotes d := (h.footnotes d).trans (h'.footnotes d)
  drawn d := Nat.le_trans (h.drawn d) (h'.drawn d)
  old := by
    intro x d hd
    obtain ⟨references₁, kind₁, hd₁, hprefix₁, hk₁⟩ := h.old hd
    obtain ⟨references₂, kind₂, hd₂, hprefix₂, hk₂⟩ := h'.old hd₁
    exact ⟨references₂, kind₂, hd₂, hprefix₁.trans hprefix₂, hk₁.trans hk₂⟩
  new := by
    intro x d₂ hnone hd₂
    rcases hd₁ : c₁.definition? x with _ | d₁
    · exact h'.new hd₁ hd₂
    · obtain ⟨value, references, rfl⟩ := h.new hnone hd₁
      obtain ⟨references₂, kind₂, hd₂', -, hk₂⟩ := h'.old hd₁
      cases hd₂.symm.trans hd₂'
      exact ⟨value, references₂, by rw [hk₂.boolean rfl]⟩

theorem composes_extends : Engine.Composes Extends where
  refl := .refl
  trans h h' := h.trans h'

/-- Keys stay, but those of the global truth values. -/
theorem Extends.keysOf (h : Extends c c') {document : Option DocumentId} {key : String}
    (hkey : document = none → key ≠ "True" ∧ key ≠ "False") :
    (c'.keysOf document).get? key = (c.keysOf document).get? key := by
  cases document with
  | none => exact h.globalKeys key (hkey rfl).1 (hkey rfl).2
  | some document =>
    have hdocument : (c'.document? document).map Document.core =
        (c.document? document).map Document.core := by
      simp only [document?, ← Array.getElem?_map, h.documents]
    have hkeys := congrArg (Option.map Document.keys) hdocument
    simp only [Option.map_map] at hkeys
    rw [Context.keysOf, Context.keysOf]
    exact congrArg (fun keys => (Option.getD keys Index.empty).get? key) hkeys

/-! ## Steps of the pass -/

/-- After an extension one definition is changed in what it holds. -/
theorem Extends.modifyKind (h : Extends c c₁) {d : Definition} (hd : c.definition? id = some d)
    {f : DefinitionKind → DefinitionKind}
    (hf : ∀ kind, d.kind.Advances kind → d.kind.Advances (f kind)) :
    Extends c (c₁.modifyDefinition id fun d => { d with kind := f d.kind }) :=
  { h with
    old := by
      intro x d' hd'
      obtain ⟨references, kind, hd₁, hprefix, hk⟩ := h.old hd'
      rw [definition?_modifyDefinition, hd₁]
      by_cases he : id = x
      · subst he
        cases hd.symm.trans hd'
        exact ⟨references, f kind, by simp, hprefix, hf kind hk⟩
      · exact ⟨references, kind, by simp [he], hprefix, hk⟩
    new := by
      intro x d' hnone hd'
      rcases of_definition?_modifyDefinition hd' with ⟨-, hd'⟩ | ⟨rfl, -⟩
      · exact h.new hnone hd'
      · cases hd.symm.trans hnone }

theorem Extends.addReference (c : Context) (definition user : DefinitionId) :
    Extends c (c.addReference definition user) :=
  { Extends.refl c with
    old := by
      intro x d hd
      rw [Context.addReference, definition?_modifyDefinition, hd]
      by_cases he : definition = x
      · exact ⟨d.references ++ [user], d.kind, by simp [he], List.prefix_append _ _, .refl _⟩
      · exact ⟨d.references, d.kind, by simp [he], List.prefix_rfl, .refl _⟩
    new := by
      intro x d' hnone hd'
      rw [Context.addReference, definition?_modifyDefinition, hnone] at hd'
      split at hd' <;> cases hd' }

/-- A part reference that has no target gets one. -/
theorem Extends.setTarget {d : Definition} {reference : PartReference}
    (hd : c.definition? id = some d) (hk : d.kind = .partReference reference)
    (hnone : reference.target = none) (target : DefinitionId) :
    Extends c ((c.addReference target id).setTarget id target) := by
  rw [setTarget_eq]
  refine (Extends.addReference c target id).modifyKind hd fun kind hkind => ?_
  rw [hk] at hkind ⊢
  generalize hstart : DefinitionKind.partReference reference = start at hkind
  cases hkind with
  | contents => subst hstart; exact .target target hnone
  | target => cases hstart; exact .target target hnone

/-- A footnote list grows at the end, and numbers are drawn. -/
theorem Extends.modifyFootnotes (c : Context) (document : Option DocumentId)
    {f : FootnoteList → FootnoteList} (hrouted : ∀ list, list.routed <+: (f list).routed)
    (hcounter : ∀ list, list.counter ≤ (f list).counter) :
    Extends c (c.modifyFootnotes document f) := by
  refine .of_core_eq (c.core_modifyFootnotes document f)
    (c.definitions_modifyFootnotes document f) (c.depth_modifyFootnotes document f) (fun d => ?_)
    fun d => ?_
  · rw [Context.footnotes, Context.footnotes]
    rcases footnoteList_modifyFootnotes_cases c document f d with h | ⟨-, h⟩
    · exact h.symm ▸ List.prefix_rfl
    · exact h.symm ▸ hrouted _
  · rw [Context.drawn, Context.drawn]
    rcases footnoteList_modifyFootnotes_cases c document f d with h | ⟨-, h⟩
    · exact Nat.le_of_eq (congrArg FootnoteList.counter h).symm
    · exact h.symm ▸ hcounter _

theorem Extends.routeFootnotes (c : Context) (document : Option DocumentId)
    (notes : List Footnote) : Extends c (c.routeFootnotes document notes) :=
  .modifyFootnotes c document (fun _ => List.prefix_append _ _) fun _ => Nat.le_refl _

/-- The text of a definition is handled if it was unread before the extension; that other passes
    may have handled it in the meantime makes no difference to what has changed. -/
theorem Extends.handle (h : Extends c c₁) {d : Definition} {content : Content}
    (hd : c.definition? id = some d) (hcontent : content ∈ d.kind.contents)
    (hunparsed : content.stage = .unparsed) (notes : List Footnote) (l : List Inline) :
    Extends c ((c₁.routeFootnotes d.document notes).modifyContent id fun content =>
      content.resolveCommands l) := by
  have hall : ∀ content ∈ d.kind.contents, content.stage = .unparsed := by
    rw [DefinitionKind.contents_eq_of_mem hcontent]
    intro content' hmem
    rw [List.mem_singleton.1 hmem]
    exact hunparsed
  rw [modifyContent_eq]
  exact (h.trans (.routeFootnotes c₁ d.document notes)).modifyKind hd fun kind hk =>
    hk.resolveCommands hall l

/-- A truth value is made. -/
theorem Extends.addBoolean (c : Context) (value : Bool) :
    Extends c (c.addBoolean none (if value then "True" else "False") value).2 := by
  generalize hkey : (if value then "True" else "False") = key
  have hwarned : ∀ warnings, Extends c (c.warnAll warnings) := fun warnings =>
    .of_core_eq (c.core_warnAll warnings) rfl rfl (fun d => by cases d <;> exact List.prefix_rfl)
      fun d => by cases d <;> exact Nat.le_refl _
  obtain ⟨warnings, h⟩ := c.exists_addBoolean key value
  rw [h]
  refine { hwarned warnings with globalKeys := ?_, old := ?_, new := ?_ }
  · intro other ht hf
    have hne : key ≠ other := by
      rintro rfl
      cases value <;> simp_all
    simp [hne]
  · intro x d hd
    have hlt := index_lt_of_definition? hd
    refine ⟨d.references, d.kind, ?_, List.prefix_rfl, .refl _⟩
    rw [definition?, Array.getElem?_push, if_neg (by omega)]
    exact hd
  · intro x d' hnone hd'
    rw [definition?, Array.getElem?_push] at hd'
    split at hd'
    · cases hd'
      exact ⟨value, [], by rw [hkey]⟩
    · cases hnone.symm.trans hd'

/-- What any command does to a context extends it. -/
theorem permits_extends : Permits (fun _ => True) Extends where
  toComposes := composes_extends
  warn c warnings := .of_core_eq (c.core_warnAll warnings) rfl rfl
    (fun d => by cases d <;> exact List.prefix_rfl) fun d => by cases d <;> exact Nat.le_refl _
  reference := .addReference
  number _ c document := .modifyFootnotes c document (fun _ => List.prefix_rfl) fun list =>
    list.counter.le_succ
  boolean _ := .addBoolean

end Context

/-- An extension one level deeper, seen from the level it began at. -/
theorem Context.Extends.leave (h : Extends (c.atDepth (c.depth + 1)) c₁) :
    Extends c (c₁.atDepth (c₁.depth - 1)) := by
  have hdepth : c₁.depth = c.depth + 1 := h.depth
  exact { h with depth := by simp [atDepth, hdepth] }

/-! ## The command pass -/

section
variable {handle : DefinitionId → Engine Unit} (hh : ∀ id, (handle id).Moves Extends)
include hh

theorem extends_resolveSource (owner : DefinitionId) (source : String) :
    (Engine.resolveSource handle owner source).Moves Extends :=
  Engine.resolveSource_moves permits_extends .routeFootnotes hh owner source

/-- The text of a definition is handled if it is unread when the pass begins. -/
theorem extends_resolveContent {d : Definition} {content : Content} {r : Except Error Unit}
    (hd : c.definition? id = some d) (hcontent : content ∈ d.kind.contents)
    (h : (Engine.resolveContent handle id content).Gives c r c') : Extends c c' :=
  Engine.resolveContent_moves permits_extends hh hd
    (fun hunparsed _ _ hextends => hextends.handle hd hcontent hunparsed _ _) h

end

/-- The command pass of a definition extends the context, if the passes of others do. -/
theorem extends_commandPass {handle : DefinitionId → Engine Unit}
    (hh : ∀ id, (handle id).Moves Extends) (id : DefinitionId) :
    (Engine.commandPass handle id).Moves Extends :=
  Engine.commandPass_moves composes_extends (fun hd hk hnone _ => .setTarget hd hk hnone _)
    (fun hd hcontent h => extends_resolveContent hh hd hcontent h) hh id

/-- However deep it nests, the command pass of a definition extends the context. -/
theorem extends_handleCommands (n : Nat) (id : DefinitionId) :
    (Engine.handleCommands n id).Moves Extends :=
  Engine.handleCommands_moves composes_extends (fun h => h.leave)
    (fun hd hk hnone _ => .setTarget hd hk hnone _)
    (fun _ hh _ _ _ _ _ _ hd hcontent h => extends_resolveContent hh hd hcontent h) n id

/-- **The command pass leaves everything else as it is.**  Whether a call for the commands of a
    definition ends with a value or an error, what is registered, set or counted is as before, but
    for the numbers drawn and the footnotes and references at the end of their lists.  In
    definitions, unread texts are handled and missing targets are set; the definitions that are
    added are truth values, and no other keys than theirs lead elsewhere.  (Numbers have 32 bits:
    fewer than `2 ^ 32` are drawn.) -/
theorem extends_of_commands {r : Except Error Unit} (h : (Call.commands id).Ends c r c') :
    c.Extends c' ∧ ∀ document key, (document = none → key ≠ "True" ∧ key ≠ "False") →
      (c'.keysOf document).get? key = (c.keysOf document).get? key := by
  obtain ⟨n, h⟩ := h
  have hextends := extends_handleCommands n id _ _ _ h
  exact ⟨hextends, fun document key => hextends.keysOf⟩

/-- A stanza names a truth value that is still to be made, inserts another stanza with a
    footnote, and fails at a key that is missing: the truth value, the inserted text and its
    footnote are there, and the stanza that failed is as it was. -/
theorem extends_of_commands_of_failure :
    ∃ c c' : Context, ∃ e, (Call.commands ⟨2⟩).Ends c (.error e) c' ∧ c.Extends c' ∧
      c.lookup? "True" none = none ∧ c'.lookup? "True" none = some ⟨3⟩ ∧
      c'.numbers (some ⟨0⟩) = [1] ∧ c'.text? ⟨1⟩ = some "[1]" ∧ c'.text? ⟨2⟩ = c.text? ⟨2⟩ := by
  let c := [Edit.addDocument "d" "D", .addVersion ⟨0⟩ (.ofKnown .coptic) none,
    .addStanza ⟨0⟩ (some "a") "\\footnote\x7bx\x7d",
    .addStanza ⟨0⟩ none "\\true\\def\x7ba\x7d\\def\x7bb\x7d"].foldl Edit.apply (.new {})
  obtain ⟨e, h⟩ : ∃ e, (Call.commands ⟨2⟩).Ends c (.error e) ((Call.commands ⟨2⟩).run 4 c) :=
    Call.ends_run_error (by decide +kernel)
  exact ⟨c, _, e, h, (extends_of_commands h).1, by decide +kernel, by decide +kernel,
    by decide +kernel, by decide +kernel, by decide +kernel⟩

end Rubric
