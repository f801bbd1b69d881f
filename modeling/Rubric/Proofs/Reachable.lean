/-
  Rubric — reachable contexts.

  * `Context.Reached.hasDocuments`: definitions are in documents that there are, if
    edits name no others;
  * `Context.IsReachable`: edits and calls in any order lead to the context.  Any
    definition may be added by hand; a text in it that is not unread is one of a
    reachable context, since texts are made unread, and copied;
  * `Context.LeavesNotes c c'`: on the way between the contexts no text is
    handled and no footnote leaves its place; every edit does so that adds no text
    but unread ones (`Edit.leavesNotes`).
-/
import Rubric.Proofs.FontFrame
import Rubric.Proofs.Frame

namespace Rubric

open Context

variable {c c' c₁ c₂ : Context} {id x : DefinitionId}

instance (c : Context) : ∀ d, Decidable (c.HasList d)
  | none => isTrue trivial
  | some document => inferInstanceAs (Decidable (document.index < c.documents.size))

/-! ## Edits of reachable contexts -/

namespace Edit

/-- Only a definition that is added is made by hand. -/
theorem eq_addDefinition {e : Edit} {d : Definition} (h : e.made? = some d) :
    e = .addDefinition d e.document? := by
  cases e <;> cases h
  rfl

/-- A document that the edit names is one of the context. -/
def FindsDocument (c : Context) (e : Edit) : Prop :=
  c.HasList e.document?

instance (c : Context) (e : Edit) : Decidable (e.FindsDocument c) :=
  inferInstanceAs (Decidable (c.HasList e.document?))

/-- A document that the edit names is one of the context, and a definition that is added by hand
    has no text but an unread one. -/
def AddsUnread (c : Context) (e : Edit) : Prop :=
  e.FindsDocument c ∧ ∀ d ∈ e.made?, ∀ content ∈ d.kind.contents, content.stage = .unparsed

instance (c : Context) (e : Edit) : Decidable (e.AddsUnread c) :=
  inferInstanceAs (Decidable (e.FindsDocument c ∧
    ∀ d ∈ e.made?, ∀ content ∈ d.kind.contents, content.stage = .unparsed))

/-- An edit adds no text but unread ones, or a definition that is made by hand. -/
theorem FindsDocument.unread_or_made {c : Context} {e : Edit} (he : e.FindsDocument c) :
    e.AddsUnread c ∨ ∃ d document, e = .addDefinition d document := by
  rcases hmade : e.made? with _ | d
  · exact Or.inl ⟨he, by rw [hmade]; rintro _ ⟨⟩⟩
  · exact Or.inr ⟨d, e.document?, eq_addDefinition hmade⟩

end Edit

namespace Context

/-! ## Documents -/

theorem hasList_addDefinition (c : Context) (definition : Definition)
    (document d : Option DocumentId) :
    (c.addDefinition definition document).2.HasList d = c.HasList d := by
  have hregister : ∀ key id, (c.registerKey document key id).HasList d = c.HasList d := by
    intro key id
    unfold registerKey
    cases document <;> cases d <;> cases (c.keysOf _).get? key <;>
      simp [HasList, modifyDocument, warn]
  unfold addDefinition
  rcases definition.key with _ | key
  · cases d <;> rfl
  · refine Eq.trans ?_ (hregister key ⟨c.definitions.size⟩)
    cases d <;> rfl

/-! ## Changes that handle nothing -/

/-- On the way between the contexts no text is handled, and the lists of footnotes stay as they
    are. -/
structure LeavesNotes (c c' : Context) : Prop where
  hasList : ∀ {d}, c.HasList d → c'.HasList d
  footnotes : ∀ d, c'.footnotes d = c.footnotes d
  drawn : ∀ d, c.drawn d ≤ c'.drawn d
  document : ∀ {x d'}, c'.definition? x = some d' →
    c'.HasList d'.document ∨ ∃ d, c.definition? x = some d ∧ d.document = d'.document
  contents : ∀ {x d'}, c'.definition? x = some d' → ∀ content ∈ d'.kind.contents,
    content.stage = .unparsed ∨
      ∃ d, c.definition? x = some d ∧ d.document = d'.document ∧ content ∈ d.kind.contents

namespace LeavesNotes

/-- A change that leaves the definitions. -/
theorem of_definitions (hasList : ∀ {d}, c.HasList d → c'.HasList d)
    (footnotes : ∀ d, c'.footnotes d = c.footnotes d) (drawn : ∀ d, c.drawn d ≤ c'.drawn d)
    (h : c'.definitions = c.definitions) : LeavesNotes c c' where
  hasList := hasList
  footnotes := footnotes
  drawn := drawn
  document {x d'} hd' := Or.inr ⟨d', definition?_of_definitions_eq h x ▸ hd', rfl⟩
  contents {x d'} hd' _ hcontent :=
    Or.inr ⟨d', definition?_of_definitions_eq h x ▸ hd', rfl, hcontent⟩

/-- A change that leaves definitions and footnotes. -/
theorem of_footnoteList (hasList : ∀ {d}, c.HasList d → c'.HasList d)
    (hlist : ∀ d, c'.footnoteList d = c.footnoteList d) (h : c'.definitions = c.definitions) :
    LeavesNotes c c' :=
  .of_definitions hasList (fun d => congrArg FootnoteList.routed (hlist d))
    (fun d => Nat.le_of_eq (congrArg FootnoteList.counter (hlist d)).symm) h

/-- A change that leaves definitions and documents. -/
theorem of_eq (hdefinitions : c'.definitions = c.definitions)
    (hloose : c'.looseFootnotes = c.looseFootnotes) (hdocuments : c'.documents = c.documents) :
    LeavesNotes c c' := by
  refine .of_footnoteList (fun {d} hd => ?_) (fun _ => footnoteList_of_eq hloose hdocuments)
    hdefinitions
  rwa [hasList_of_eq hdocuments]

theorem refl (c : Context) : LeavesNotes c c :=
  .of_eq rfl rfl rfl

theorem trans (h : LeavesNotes c c₁) (h' : LeavesNotes c₁ c₂) : LeavesNotes c c₂ where
  hasList hd := h'.hasList (h.hasList hd)
  footnotes d := (h'.footnotes d).trans (h.footnotes d)
  drawn d := Nat.le_trans (h.drawn d) (h'.drawn d)
  document hd₂ := by
    rcases h'.document hd₂ with hlist | ⟨d₁, hd₁, hdocument⟩
    · exact Or.inl hlist
    · rw [← hdocument]
      exact (h.document hd₁).imp_left h'.hasList
  contents hd₂ content hcontent := by
    rcases h'.contents hd₂ content hcontent with hunparsed | ⟨d₁, hd₁, hdocument, hmem⟩
    · exact Or.inl hunparsed
    · rw [← hdocument]
      exact h.contents hd₁ content hmem

/-- A definition is changed, but stays in its document with the texts it had, or unread ones. -/
theorem modifyDefinition (c : Context) {f : Definition → Definition}
    (hdocument : ∀ d, (f d).document = d.document)
    (hcontents : ∀ d, c.definition? id = some d →
      ∀ content ∈ (f d).kind.contents, content.stage = .unparsed ∨ content ∈ d.kind.contents) :
    LeavesNotes c (c.modifyDefinition id f) := by
  refine { refl c with hasList := fun hd => hd, document := fun hx => ?_, contents := ?_ }
  · rcases of_definition?_modifyDefinition hx with ⟨-, hx⟩ | ⟨rfl, d, hd, rfl⟩
    · exact Or.inr ⟨_, hx, rfl⟩
    · exact Or.inr ⟨d, hd, (hdocument d).symm⟩
  · intro x d' hx content hcontent
    rcases of_definition?_modifyDefinition hx with ⟨-, hx⟩ | ⟨rfl, d, hd, rfl⟩
    · exact Or.inr ⟨d', hx, rfl, hcontent⟩
    · exact (hcontents d hd content hcontent).imp_right fun hmem =>
        ⟨d, hd, (hdocument d).symm, hmem⟩

theorem addReference (c : Context) (definition user : DefinitionId) :
    LeavesNotes c (c.addReference definition user) :=
  .modifyDefinition c (fun _ => rfl) fun _ _ _ h => Or.inr h

theorem setTarget (c : Context) (id target : DefinitionId) :
    LeavesNotes c (c.setTarget id target) := by
  rw [setTarget_eq]
  refine .modifyDefinition c (fun _ => rfl) fun d _ content hcontent => Or.inr ?_
  rcases d with ⟨_, _, _, _, _, _, _ | _ | _ | _ | _ | _ | _⟩ <;> exact hcontent

/-- A number is drawn. -/
theorem number (c : Context) (document : Option DocumentId) :
    LeavesNotes c (c.modifyFootnotes document fun list =>
      { list with counter := list.counter + 1 }) := by
  have hlist := c.footnoteList_modifyFootnotes_cases document fun list =>
    { list with counter := list.counter + 1 }
  refine .of_definitions (fun {d} hd => ?_) (fun d => ?_) (fun d => ?_) ?_
  · rwa [hasList_modifyFootnotes]
  · rcases hlist d with h | ⟨-, h⟩ <;> rw [Context.footnotes, h] <;> rfl
  · rw [Context.drawn, Context.drawn]
    rcases hlist d with h | ⟨-, h⟩
    · exact Nat.le_of_eq (congrArg FootnoteList.counter h).symm
    · exact h.symm ▸ Nat.le_succ _
  · cases document <;> rfl

/-- A change of a document that leaves its footnotes. -/
theorem modifyDocument (c : Context) (document : DocumentId) {f : Document → Document}
    (hf : ∀ document, (f document).footnotes = document.footnotes) :
    LeavesNotes c (c.modifyDocument document f) := by
  refine .of_footnoteList (fun {d} hd => ?_) (c.footnoteList_modifyDocument document hf) rfl
  cases d with
  | none => trivial
  | some d => simpa [HasList, Context.modifyDocument] using hd

/-- A definition with unread texts is added to a document there is. -/
theorem addDefinition (c : Context) {d : Definition} {document : Option DocumentId}
    (hd : ∀ content ∈ d.kind.contents, content.stage = .unparsed) (hlist : c.HasList document) :
    LeavesNotes c (c.addDefinition d document).2 := by
  have hlists : ∀ {d'}, c.HasList d' → (c.addDefinition d document).2.HasList d' := by
    intro d' hd'
    rwa [hasList_addDefinition]
  have hfootnotes := c.footnoteList_addDefinition d document
  constructor
  · exact hlists
  · exact fun d' => congrArg FootnoteList.routed (hfootnotes d')
  · exact fun d' => Nat.le_of_eq (congrArg FootnoteList.counter (hfootnotes d')).symm
  · intro x d' hx
    rcases of_definition?_addDefinition hx with hx | ⟨-, rfl⟩
    · exact Or.inr ⟨d', hx, rfl⟩
    · exact Or.inl (hlists hlist)
  · intro x d' hx content hcontent
    rcases of_definition?_addDefinition hx with hx | ⟨-, rfl⟩
    · exact Or.inr ⟨d', hx, rfl, hcontent⟩
    · exact Or.inl (hd content hcontent)

theorem addBoolean (c : Context) (key : String) (value : Bool) :
    LeavesNotes c (c.addBoolean none key value).2 :=
  .addDefinition c (by simp [DefinitionKind.contents]) trivial

/-- A part with unread texts is added. -/
theorem addChild (c : Context) (parent : DefinitionId) (key : Option String)
    {kind : DefinitionKind} (hkind : ∀ content ∈ kind.contents, content.stage = .unparsed)
    (hlist : c.HasList ((c.definition? parent).bind Definition.document)) :
    LeavesNotes c (c.addChild parent key kind).2 := by
  have hadd : LeavesNotes c (c.addDefinition { key, parent := some parent, kind }
      ((c.definition? parent).bind Definition.document)).2 := .addDefinition c hkind hlist
  unfold Context.addChild
  dsimp only
  refine hadd.trans ?_
  generalize (c.addDefinition { key, parent := some parent, kind }
    ((c.definition? parent).bind Definition.document)).2 = added
  split
  · rename_i body hbody
    obtain ⟨d, hd, hbody⟩ := Option.map_eq_some_iff.1 hbody
    refine .modifyDefinition added (fun _ => rfl) fun d' hd' content hcontent => Or.inr ?_
    cases hd.symm.trans hd'
    rw [hbody]
    exact hcontent
  · exact .of_eq rfl rfl rfl
  · exact .refl added

theorem setSourceText (c : Context) (id : DefinitionId) (source : String) :
    LeavesNotes c (c.setSourceText id source) := by
  unfold Context.setSourceText
  split
  case h_4 => exact .of_eq rfl rfl rfl
  case h_5 => exact .refl c
  all_goals
    refine .modifyDefinition c (fun _ => rfl) fun d _ content hcontent => Or.inl ?_
    simp only [DefinitionKind.contents, Option.toList_some, List.mem_singleton] at hcontent
    rw [hcontent]; rfl

theorem numbers (h : LeavesNotes c c') (d : Option DocumentId) : c'.numbers d = c.numbers d :=
  congrArg (List.map Footnote.number) (h.footnotes d)

end LeavesNotes

/-- What any command does to a context handles no text. -/
theorem permits_leavesNotes : Permits (fun _ => True) LeavesNotes where
  refl := .refl
  trans h h' := h.trans h'
  warn _ _ := .of_eq rfl rfl rfl
  reference := .addReference
  number _ := .number
  boolean _ c _ := .addBoolean c _ _

end Context

/-- An edit that adds no text but unread ones handles no text. -/
theorem Edit.leavesNotes {e : Edit} (he : e.AddsUnread c) (hlists : c.HasDocuments) :
    LeavesNotes c (e.apply c) := by
  cases e with
  | addDocument key name =>
    have hlist := (Edit.addDocument key name).footnoteList_apply c
    refine .of_footnoteList (fun {d} hd => ?_) hlist rfl
    cases d with
    | none => trivial
    | some document =>
      have hsize : document.index < (c.documents.push { key, name }).size := by
        rw [Array.size_push]
        exact Nat.lt_succ_of_lt hd
      exact hsize
  | setAuthor document author => exact .modifyDocument c document fun _ => rfl
  | addVersion document language font =>
    have hadd : LeavesNotes c (c.addDefinition
        { language := some language, font, kind := .section {} } (some document)).2 :=
      .addDefinition c (by simp [DefinitionKind.contents]) he.1
    exact hadd.trans (.modifyDocument _ document fun _ => rfl)
  | addSection parent key title =>
    refine .addChild c parent key ?_ (hasList_bind_document hlists parent)
    cases title <;> simp [DefinitionKind.contents, Content.ofSource]
  | addStanza parent key source | addParagraph parent key source =>
    refine .addChild c parent key ?_ (hasList_bind_document hlists parent)
    simp [DefinitionKind.contents, Content.ofSource]
  | addPartReference parent key targetKey =>
    refine .addChild c parent key ?_ (hasList_bind_document hlists parent)
    simp [DefinitionKind.contents]
  | addDefinition d document => exact .addDefinition c (he.2 d rfl) he.1
  | setSourceText id source => exact .setSourceText c id source
  | setLanguage | setFont | addReference =>
    exact .modifyDefinition c (fun _ => rfl) fun _ _ _ h => Or.inr h
  | setCommands | setFonts | registerAnalyzer | setSettings => exact .of_eq rfl rfl rfl

namespace Context

/-! ## Documents of reachable contexts -/

namespace HasDocuments

variable (h : c.HasDocuments)
include h

theorem of_leavesNotes (hl : LeavesNotes c c') : c'.HasDocuments := by
  intro x d' hd'
  rcases hl.document hd' with hlist | ⟨d, hd, hdocument⟩
  · exact hlist
  · rw [← hdocument]
    exact hl.hasList (h hd)

theorem addDefinition (d : Definition) {document : Option DocumentId} (hlist : c.HasList document) :
    (c.addDefinition d document).2.HasDocuments := by
  intro x d' hd'
  rw [hasList_addDefinition]
  rcases of_definition?_addDefinition hd' with hd' | ⟨-, rfl⟩
  · exact h hd'
  · exact hlist

/-- An edit that names no other documents than those there are. -/
theorem edit {e : Edit} (he : e.FindsDocument c) : (e.apply c).HasDocuments := by
  rcases he.unread_or_made with hunread | ⟨d, document, rfl⟩
  · exact h.of_leavesNotes (Edit.leavesNotes hunread h)
  · exact h.addDefinition d he

/-- The lists are the same, and definitions are where they were, or in no document. -/
theorem of_documents (hlist : ∀ d, c'.HasList d = c.HasList d)
    (hdocument : ∀ {x d'}, c'.definition? x = some d' →
      d'.document = none ∨ ∃ d, c.definition? x = some d ∧ d.document = d'.document) :
    c'.HasDocuments := by
  intro x d' hd'
  rw [hlist]
  rcases hdocument hd' with hnone | ⟨d, hd, hdocument⟩
  · rw [hnone]; trivial
  · rw [← hdocument]; exact h hd

/-- A call leaves definitions in their documents, and the truth values that it adds are in none. -/
theorem call {call : Call} {r : Except Error Unit} (hends : call.Ends c r c') :
    c'.HasDocuments := by
  refine hends.moves (R := fun c c' => c.HasDocuments → c'.HasDocuments)
    ⟨fun _ hc => hc, fun h h' hc => h' (h hc)⟩ (fun n id c r c' hr hc => ?commands)
    (fun n id c r c' hr hc => ?fonts) h
  case commands =>
    have hextends := extends_handleCommands n id c r c' hr
    refine hc.of_documents (fun d => ?_) fun {x d'} hd' => ?_
    · obtain ⟨⟨held, hheld⟩, -⟩ := balances_handleCommands d n id c r c' hr
      exact hheld.hasList
    · rcases hd : c.definition? x with _ | d
      · obtain ⟨value, references, rfl⟩ := hextends.new hd hd'
        exact Or.inl rfl
      · obtain ⟨references, kind, hd₁, -⟩ := hextends.old hd
        cases hd'.symm.trans hd₁
        exact Or.inr ⟨d, rfl, rfl⟩
  case fonts =>
    refine hc.of_documents (fun d => (handleFonts_moves d n id c r c' hr).hasList)
      fun {x d'} hd' => ?_
    obtain ⟨d, kind, hd, rfl, -⟩ := (converts_handleFonts n id c r c' hr).of_definition? hd'
    exact Or.inr ⟨d, hd, rfl⟩

end HasDocuments

/-- Definitions are in documents that there are if edits name no others. -/
theorem Reached.hasDocuments {E : Context → Edit → Prop}
    {P : Context → Call → Except Error Unit → Prop} (hE : ∀ c e, E c e → e.FindsDocument c)
    (h : c.Reached E P) : c.HasDocuments := by
  induction h with
  | new settings => rintro x d ⟨⟩
  | edit _ he ih => exact ih.edit (hE _ _ he)
  | call _ _ hends ih => exact ih.call hends

/-! ## Reachable contexts -/

/-- Edits and calls lead to the context.  Any definition may be added by hand: its text, if it is
    not unread, is one of a reachable context, of this one or another one. -/
inductive IsReachable : Context → Prop
  | new (settings : Settings) : IsReachable (.new settings)
  | edit {c : Context} {e : Edit} : IsReachable c → e.AddsUnread c → IsReachable (e.apply c)
  | copy {c source : Context} {x : DefinitionId} {original d : Definition}
      {document : Option DocumentId} : IsReachable c → IsReachable source →
      source.definition? x = some original → d.kind.contents ⊆ original.kind.contents →
      c.HasList document → IsReachable (c.addDefinition d document).2
  | call {c c' : Context} {call : Call} {r : Except Error Unit} :
      IsReachable c → call.Ends c r c' → IsReachable c'

namespace IsReachable

/-- Edits that add no texts but unread ones, one after the other. -/
theorem edits {edits : List Edit} (h : c.IsReachable) (he : Edit.All Edit.AddsUnread c edits) :
    (edits.foldl Edit.apply c).IsReachable := by
  induction edits generalizing c with
  | nil => exact h
  | cons e edits ih => exact ih (h.edit he.1) he.2

theorem hasDocuments (h : c.IsReachable) : c.HasDocuments := by
  induction h with
  | new settings => rintro x d ⟨⟩
  | edit _ he ih => exact ih.edit he.1
  | copy _ _ _ _ hlist ih => exact ih.addDefinition _ hlist
  | call _ hends ih => exact ih.call hends

end IsReachable

end Context

end Rubric
