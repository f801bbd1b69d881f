/-
  Rubric — what holds of the texts of a context from when they are handled.

  A text is changed twice: its commands are handled, and its fonts are
  converted.  In between the context grows around it, but no definition leaves
  its key or its document, and no reference is taken back.

  * `Context.references`: the nodes that used a definition;
  * `Context.Recalls c c'`: keys, documents and references of the definitions of
    `c` are kept.  Edits do so (`Edit.recalls`), and so do calls, however they
    end (`Call.Ends.recalls`);
  * `Context.TextLaw`: a property of texts that both steps bring about or keep;
  * **`TextLaw.of_reached`**, **`TextLaw.of_isReachable`**: it holds of all texts that
    edits and calls lead to, if the texts added by hand have it.
-/
import Rubric.Proofs.Agreement
import Rubric.Proofs.Moves

namespace Rubric

open Context

variable {c c' c₁ : Context} {id x t : DefinitionId}

namespace Context

/-! ## What is kept -/

/-- The nodes that used a definition, in the order they did so. -/
def references (c : Context) (x : DefinitionId) : List DefinitionId :=
  ((c.definition? x).map Definition.references).getD []

/-- Definitions stay under their keys and in their documents, and their references are kept. -/
def Recalls (c c' : Context) : Prop :=
  ∀ x d, c.definition? x = some d → ∃ d', c'.definition? x = some d' ∧
    d'.key = d.key ∧ d'.document = d.document ∧ d.references <+: d'.references

theorem composes_recalls : Engine.Composes Recalls where
  refl _ _ d hd := ⟨d, hd, rfl, rfl, List.prefix_rfl⟩
  trans h h' x d hd := by
    obtain ⟨d₁, hd₁, hkey₁, hdocument₁, href₁⟩ := h x d hd
    obtain ⟨d₂, hd₂, hkey₂, hdocument₂, href₂⟩ := h' x d₁ hd₁
    exact ⟨d₂, hd₂, hkey₂.trans hkey₁, hdocument₂.trans hdocument₁, href₁.trans href₂⟩

namespace Recalls

theorem references (h : Recalls c c') (x : DefinitionId) :
    c.references x <+: c'.references x := by
  rw [Context.references, Context.references]
  rcases hd : c.definition? x with _ | d
  · exact List.nil_prefix
  · obtain ⟨d', hd', -, -, href⟩ := h x d hd
    rw [hd']
    exact href

theorem of_definitions (h : c'.definitions = c.definitions) : Recalls c c' := by
  intro x d hd
  rw [← definition?_of_definitions_eq h] at hd
  exact ⟨d, hd, rfl, rfl, List.prefix_rfl⟩

theorem of_extends (h : Extends c c') : Recalls c c' := by
  intro x d hd
  obtain ⟨references, kind, hd', href, -⟩ := h.old hd
  exact ⟨_, hd', rfl, rfl, href⟩

theorem of_converts (h : Converts c c') : Recalls c c' := by
  intro x d hd
  obtain ⟨kind, hd', -⟩ := h.definition hd
  exact ⟨_, hd', rfl, rfl, List.prefix_rfl⟩

/-- One definition is changed, but not in its key, its document or its references. -/
theorem modifyDefinition (c : Context) {f : Definition → Definition}
    (hkey : ∀ d, (f d).key = d.key) (hdocument : ∀ d, (f d).document = d.document)
    (href : ∀ d, d.references <+: (f d).references) : Recalls c (c.modifyDefinition id f) := by
  intro x d hd
  rw [definition?_modifyDefinition, hd]
  split
  · exact ⟨f d, rfl, hkey d, hdocument d, href d⟩
  · exact ⟨d, rfl, rfl, rfl, List.prefix_rfl⟩

theorem addDefinition (c : Context) (d : Definition) (document : Option DocumentId) :
    Recalls c (c.addDefinition d document).2 :=
  fun _ d' hd' => ⟨d', definition?_addDefinition_of_some hd', rfl, rfl, List.prefix_rfl⟩

theorem addChild (c : Context) (parent : DefinitionId) (key : Option String)
    (kind : DefinitionKind) : Recalls c (c.addChild parent key kind).2 := by
  unfold Context.addChild
  dsimp only
  refine composes_recalls.trans (.addDefinition c { key, parent := some parent, kind }
    ((c.definition? parent).bind Definition.document)) ?_
  split
  · exact .modifyDefinition _ (fun _ => rfl) (fun _ => rfl) fun _ => List.prefix_rfl
  · exact .of_definitions rfl
  · exact composes_recalls.refl _

theorem setSourceText (c : Context) (id : DefinitionId) (source : String) :
    Recalls c (c.setSourceText id source) := by
  unfold Context.setSourceText
  split
  case h_4 => exact .of_definitions rfl
  case h_5 => exact composes_recalls.refl c
  all_goals exact .modifyDefinition c (fun _ => rfl) (fun _ => rfl) fun _ => List.prefix_rfl

end Recalls

end Context

/-- An edit takes nothing away. -/
theorem Edit.recalls (e : Edit) (c : Context) : Recalls c (e.apply c) := by
  cases e with
  | addSection parent key | addStanza parent key | addParagraph parent key
  | addPartReference parent key => exact .addChild c parent key _
  | addDefinition d document => exact .addDefinition c d document
  | addVersion document language font =>
    exact composes_recalls.trans (.addDefinition c
      { language := some language, font, kind := .section {} } (some document))
      (.of_definitions rfl)
  | setSourceText id source => exact .setSourceText c id source
  | setLanguage | setFont =>
    exact .modifyDefinition c (fun _ => rfl) (fun _ => rfl) fun _ => List.prefix_rfl
  | addReference =>
    exact .modifyDefinition c (fun _ => rfl) (fun _ => rfl) fun _ => List.prefix_append _ _
  | addDocument | setAuthor | setCommands | setFonts | registerAnalyzer | setSettings =>
    exact .of_definitions rfl

/-- What any command does to a context takes nothing away. -/
theorem permits_recalls : Permits (fun _ => True) Recalls :=
  permits_extends.mono composes_recalls fun h => .of_extends h

/-- A call takes nothing away, however it ends. -/
theorem Call.Ends.recalls {call : Call} {r : Except Error Unit} (h : call.Ends c r c') :
    Recalls c c' :=
  h.moves composes_recalls (fun n id _ _ _ h => .of_extends (extends_handleCommands n id _ _ _ h))
    fun n id _ _ _ h => .of_converts (converts_handleFonts n id _ _ _ h)

namespace Context

/-! ## Properties of texts -/

/-- A property of the texts of definitions in contexts: unread texts have it, handling a text
    brings it about, converting the text keeps it, and so does whatever takes nothing away. -/
structure TextLaw (Φ : Context → DefinitionId → Content → Prop) : Prop where
  unread : ∀ {c x} {content : Content}, content.stage = .unparsed → Φ c x content
  mono : ∀ {c c' x content}, Recalls c c' → Φ c x content → Φ c' x content
  handle : ∀ {c c' x document tags written l notes} {content : Content} (n : Nat),
    Markup.parse c.commands content.source = .ok written →
    (Inline.executeList (Engine.handleCommands n) { owner := x, document } tags written).Gives c
      (.ok (l, notes)) c' → Φ c' x (content.resolveCommands l)
  convert : ∀ {c x} {content : Content} fonts tags, Φ c x content →
    Φ c x (content.resolveFonts (Inline.remap fonts tags))

/-- Every text has the property. -/
def AllTexts (Φ : Context → DefinitionId → Content → Prop) (c : Context) : Prop :=
  ∀ x d, c.definition? x = some d → ∀ content ∈ d.kind.contents, Φ c x content

namespace TextLaw

variable {Φ : Context → DefinitionId → Content → Prop} (law : TextLaw Φ)
include law

/-- No text is handled, and nothing is taken away. -/
theorem of_leavesNotes (hl : LeavesNotes c c') (hr : Recalls c c') (h : AllTexts Φ c) :
    AllTexts Φ c' := by
  intro x d' hd' content hcontent
  rcases hl.contents hd' content hcontent with hunread | ⟨d, hd, -, hmem⟩
  · exact law.unread hunread
  · exact law.mono hr (h x d hd content hmem)

theorem atDepth (depth : Nat) (h : AllTexts Φ c) : AllTexts Φ (c.atDepth depth) := by
  have hleaves : LeavesNotes c (c.atDepth depth) := .of_eq rfl rfl rfl
  exact law.of_leavesNotes hleaves (.of_definitions rfl) h

/-- Texts are converted. -/
theorem of_converts (hc : Converts c c') (h : AllTexts Φ c) : AllTexts Φ c' := by
  intro x d' hd' content' hcontent'
  obtain ⟨d, kind, hd, rfl, hk⟩ := hc.of_definition? hd'
  refine law.mono (.of_converts hc) ?_
  cases hk with
  | same => exact h x d hd content' hcontent'
  | fonts =>
    obtain ⟨content, hcontent, rfl⟩ := DefinitionKind.mem_contents_mapContents.1 hcontent'
    exact law.convert _ _ (h x d hd content hcontent)

/-- The text of one definition is handled, other texts stay. -/
theorem handled (h : AllTexts Φ c) {d : Definition} {document : Option DocumentId}
    {notes : List Footnote} {l : List Inline} (hd : c.definition? id = some d)
    (hnew : ∀ content ∈ d.kind.contents, Φ c id (content.resolveCommands l)) :
    AllTexts Φ ((c.routeFootnotes document notes).modifyContent id fun content =>
      content.resolveCommands l) := by
  rw [modifyContent_eq]
  have hroute : Recalls c (c.routeFootnotes document notes) :=
    .of_definitions (c.definitions_modifyFootnotes document _)
  intro x d' hd' content' hcontent'
  obtain ⟨d₁, hd₁, rfl⟩ := definition?_modifyKind hd'
  rw [routeFootnotes, definition?_modifyFootnotes] at hd₁
  refine law.mono (composes_recalls.trans hroute
    (.modifyDefinition _ (fun _ => rfl) (fun _ => rfl) fun _ => List.prefix_rfl)) ?_
  by_cases he : id = x
  · subst he
    cases hd.symm.trans hd₁
    rw [if_pos rfl] at hcontent'
    obtain ⟨content, hcontent, rfl⟩ := DefinitionKind.mem_contents_mapContents.1 hcontent'
    exact hnew content hcontent
  · rw [if_neg he] at hcontent'
    exact h x d₁ hd₁ content' hcontent'

/-- What any command does to a context leaves the property to texts. -/
theorem permits : Permits (fun _ => True) fun c c' => Extends c c' ∧
    (AllTexts Φ c → AllTexts Φ c') := by
  refine permits_extends.and ?_
  exact (permits_leavesNotes.and permits_recalls).mono ⟨fun _ h => h, fun h h' hc => h' (h hc)⟩
    fun h => law.of_leavesNotes h.1 h.2

/-- The command pass of a definition leaves the property to all texts, however it ends. -/
theorem handleCommands (n : Nat) (id : DefinitionId) :
    (Engine.handleCommands n id).Moves fun c c' => Extends c c' ∧
      (AllTexts Φ c → AllTexts Φ c') := by
  refine Engine.handleCommands_moves law.permits.toComposes (fun h => ⟨h.1.leave, fun hc => ?leave⟩)
    (fun {c id target d reference} hd hk hnone _ => ⟨.setTarget hd hk hnone _, ?target⟩)
    (fun n hh c id d content r c' hd hcontent h => ?content) n id
  case leave => exact law.atDepth _ (h.2 (law.atDepth _ hc))
  case target =>
    exact law.of_leavesNotes ((LeavesNotes.addReference _ _ _).trans (.setTarget _ _ _))
      (.of_extends (.setTarget hd hk hnone _))
  case content =>
    refine Engine.resolveContent_moves law.permits hh hd
      (fun {written tags l notes c₁} hunparsed hwritten hl hmoves =>
        ⟨hmoves.1.handle hd hcontent hunparsed notes l, fun hc => ?_⟩) h
    obtain ⟨references, kind, hd₁, -, hk⟩ := hmoves.1.old hd
    refine law.handled (hmoves.2 hc) hd₁ fun content₁ hcontent₁ => ?_
    -- other passes may have handled the text in the meantime, but its source is the same
    obtain ⟨content', hcontent', hadvances⟩ := hk.exists_content hcontent₁
    obtain rfl : content' = content := by
      rw [DefinitionKind.contents_eq_of_mem hcontent] at hcontent'
      exact List.mem_singleton.1 hcontent'
    have hsame : content₁.resolveCommands l = content'.resolveCommands l := by
      cases hadvances <;> rfl
    rw [hsame]
    exact law.handle n hwritten hl

/-- An edit leaves the property to texts if it adds no text by hand that has not got it. -/
theorem edit {e : Edit} (he : e.FindsDocument c) (hlists : c.HasDocuments)
    (hnew : ∀ d ∈ e.made?, ∀ content ∈ d.kind.contents,
      Φ (e.apply c) ⟨c.definitions.size⟩ content) (h : AllTexts Φ c) :
    AllTexts Φ (e.apply c) := by
  rcases he.unread_or_made with hunread | ⟨d, document, rfl⟩
  · exact law.of_leavesNotes (Edit.leavesNotes hunread hlists) (e.recalls c) h
  · have hrecalls := (Edit.addDefinition d document).recalls c
    intro x d' hd' content hcontent
    rcases of_definition?_addDefinition hd' with hold | ⟨hx, rfl⟩
    · exact law.mono hrecalls (h x d' hold content hcontent)
    · obtain rfl : x = ⟨c.definitions.size⟩ := congrArg DefinitionId.mk hx
      exact hnew d rfl content hcontent

/-- A call leaves the property to texts, however it ends. -/
theorem call {call : Call} {r : Except Error Unit} (hends : call.Ends c r c')
    (h : AllTexts Φ c) : AllTexts Φ c' :=
  hends.moves ⟨fun _ hc => hc, fun h h' hc => h' (h hc)⟩
    (fun n id c r c' h => (law.handleCommands n id c r c' h).2)
    (fun n id _ _ _ h => law.of_converts (converts_handleFonts n id _ _ _ h)) h

/-- **What both steps bring about or keep holds of all texts that edits and calls lead to**, if it
    holds of those that are added by hand. -/
theorem of_reached {E : Context → Edit → Prop} {P : Context → Call → Except Error Unit → Prop}
    (hE : ∀ {c e}, E c e → e.FindsDocument c ∧ ∀ d ∈ e.made?, ∀ content ∈ d.kind.contents,
      Φ (e.apply c) ⟨c.definitions.size⟩ content) (h : c.Reached E P) : AllTexts Φ c := by
  induction h with
  | new settings => rintro x d ⟨⟩
  | @edit c e hc he ih =>
    have hlists : c.HasDocuments := Reached.hasDocuments (fun _ _ he => (hE he).1) hc
    exact law.edit (hE he).1 hlists (hE he).2 ih
  | call _ _ hends ih => exact law.call hends ih

/-- **What both steps bring about or keep holds of all texts of all reachable contexts**, if a copy
    of a text has it. -/
theorem of_isReachable
    (hcopy : ∀ {c c₁ x y content}, Φ c x content → Φ c₁ y content) (h : c.IsReachable) :
    AllTexts Φ c := by
  induction h with
  | new settings => rintro x d ⟨⟩
  | edit hc he ih =>
    exact law.edit he.1 hc.hasDocuments (fun d hd content hcontent =>
      law.unread (he.2 d hd content hcontent)) ih
  | @copy c source x original d document hc _ horiginal htexts hlist ih ihsource =>
    exact law.edit (e := .addDefinition d document) hlist hc.hasDocuments
      (by rintro _ ⟨⟩ content hcontent
          exact hcopy (ihsource x original horiginal content (htexts hcontent))) ih
  | call _ hends ih => exact law.call hends ih

end TextLaw

end Context

end Rubric
