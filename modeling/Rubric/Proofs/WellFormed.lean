/-
  Rubric — the state stays well formed.

  Everything that a context stores by number is there, as long as the edits name
  nothing that the context has not handed out.

  * `Context.Arises`: edits that name what is there, and calls, lead to the context;
  * `Context.IsArranged`: users, versions and children; `Edit.staysArranged`,
    `staysArranged_handleCommands`: this stays so;
  * `Inline.HasParameter`, `Context.Fits`: what a command evaluates to is there;
    `Context.noteLaw_fits`: this holds of texts and listed footnotes;
  * `Context.IsWellFormed`; `IsWellFormed.renders`, `IsWellFormed.counts`: then
    nothing that rendering comes to is missing;
  * **`wellFormed_of_arises`**: every context that arises is well formed.
-/
import Rubric.Proofs.Listed
import Rubric.Proofs.References
import Rubric.Proofs.Targets
import Rubric.Proofs.Termination

namespace Rubric

open Context

variable {c c' c₁ : Context} {id x y : DefinitionId}

/-! ## Contexts that arise -/

/-- The definitions that an edit names. -/
def Edit.named : Edit → List DefinitionId
  | addSection parent _ _ | addStanza parent _ _ | addParagraph parent _ _
  | addPartReference parent _ _ => [parent]
  | addDefinition d _ => d.parent.toList
  | setSourceText id _ | setLanguage id _ | setFont id _ => [id]
  | addReference definition user => [definition, user]
  | _ => []

instance (c : Context) (x : DefinitionId) : Decidable (c.Has x) :=
  inferInstanceAs (Decidable (x.index < c.definitions.size))

/-- The definition is new: nothing in it is resolved, it has no parts, and nobody has used it. -/
structure Definition.IsFresh (d : Definition) : Prop where
  kind : d.kind.IsFresh
  references : d.references = []

instance (d : Definition) : Decidable d.IsFresh :=
  decidable_of_iff (((∀ content ∈ d.kind.contents, content.stage = .unparsed) ∧
      d.kind.children = [] ∧ d.kind.target? = none) ∧ d.references = [])
    ⟨fun h => ⟨⟨h.1.1, h.1.2.1, h.1.2.2⟩, h.2⟩,
      fun h => ⟨⟨h.kind.contents, h.kind.children, h.kind.target⟩, h.references⟩⟩

/-- What the edit names is there, and a definition that is added by hand is new. -/
def Edit.IsGiven (c : Context) (e : Edit) : Prop :=
  (∀ x ∈ e.named, c.Has x) ∧ e.FindsDocument c ∧ ∀ d ∈ e.made?, d.IsFresh

instance (c : Context) (e : Edit) : Decidable (e.IsGiven c) :=
  inferInstanceAs (Decidable ((∀ x ∈ e.named, c.Has x) ∧ e.FindsDocument c ∧
    ∀ d ∈ e.made?, d.IsFresh))

theorem Edit.IsGiven.applies {e : Edit} (h : e.IsGiven c) : e.Applies c := by
  refine ⟨fun parent hparent => ?_, fun d hd => (h.2.2 d hd).kind.accepts c _⟩
  refine Option.isSome_iff_exists.2 (has_iff.1 (h.1 parent ?_))
  cases e with
  | addSection | addStanza | addParagraph | addPartReference =>
    cases hparent
    exact List.mem_singleton_self _
  | addDefinition => exact Option.mem_toList.2 hparent
  | _ => cases hparent

theorem Edit.IsGiven.addsUnread {e : Edit} (h : e.IsGiven c) : e.AddsUnread c :=
  ⟨h.2.1, fun d hd => (h.2.2 d hd).kind.contents⟩

namespace Context

/-- Edits that name what is there, and add no definitions by hand but new ones, and calls lead to
    the context. -/
def Arises : Context → Prop :=
  ReachedBy Edit.IsGiven

theorem Arises.isLinked (h : c.Arises) : c.IsLinked := by
  induction h with
  | new settings => exact isLinked_new settings
  | edit _ he ih => exact (Edit.staysLinked he.applies ih).1
  | call _ _ hends ih =>
    exact (hends.moves composes_staysLinked staysLinked_handleCommands staysLinked_handleFonts ih).1

/-! ## Users, versions and children -/

/-- The versions of a document. -/
def versions (c : Context) (i : DocumentId) : List Version :=
  ((c.document? i).map Document.versions).getD []

theorem versions_core (c : Context) (i : DocumentId) : c.core.versions i = c.versions i := by
  rw [versions, document?_core, Option.map_map, versions]
  rfl

/-- Those who have used a definition and the roots of versions are there, and the children of a
    definition are there in ascending order, with the definition as their parent. -/
structure IsArranged (c : Context) : Prop where
  users : ∀ {x d}, c.definition? x = some d → ∀ y ∈ d.references, c.Has y
  roots : ∀ i, ∀ version ∈ c.versions i, c.Has version.root
  ascending : ∀ {x d}, c.definition? x = some d →
    d.kind.children.Pairwise fun y z => y.index < z.index
  parts : ∀ {x d}, c.definition? x = some d → ∀ y ∈ d.kind.children,
    ∃ part, c.definition? y = some part ∧ part.parent = some x

/-- Definitions stay, and under their parents. -/
def StaysUnder (c c' : Context) : Prop :=
  ∀ x d, c.definition? x = some d → ∃ d', c'.definition? x = some d' ∧ d'.parent = d.parent

theorem composes_staysUnder : Engine.Composes StaysUnder where
  refl _ _ d hd := ⟨d, hd, rfl⟩
  trans h h' x d hd := by
    obtain ⟨d₁, hd₁, hparent₁⟩ := h x d hd
    obtain ⟨d₂, hd₂, hparent₂⟩ := h' x d₁ hd₁
    exact ⟨d₂, hd₂, hparent₂.trans hparent₁⟩

theorem StaysUnder.has (h : StaysUnder c c') (hx : c.Has x) : c'.Has x := by
  obtain ⟨d, hd⟩ := has_iff.1 hx
  obtain ⟨d', hd', -⟩ := h x d hd
  exact has_iff.2 ⟨d', hd'⟩

/-- One definition is changed, but keeps its parent. -/
theorem StaysUnder.modifyDefinition (c : Context) {f : Definition → Definition}
    (hparent : ∀ d, (f d).parent = d.parent) : StaysUnder c (c.modifyDefinition id f) := by
  intro x d hd
  rw [definition?_modifyDefinition, hd]
  split
  · exact ⟨f d, rfl, hparent d⟩
  · exact ⟨d, rfl, rfl⟩

theorem isArranged_new (settings : Settings) : (new settings).IsArranged := by
  constructor
  · intro x d h; cases h
  · intro i version h; cases h
  · intro x d h; cases h
  · intro x d h; cases h

/-- From an arranged context this leads to an arranged one, in which definitions stay. -/
def StaysArranged (c c' : Context) : Prop :=
  StaysUnder c c' ∧ (c.IsArranged → c'.IsArranged)

theorem composes_staysArranged : Engine.Composes StaysArranged where
  refl c := ⟨composes_staysUnder.refl c, fun h => h⟩
  trans h h' := ⟨composes_staysUnder.trans h.1 h'.1, fun hc => h'.2 (h.2 hc)⟩

namespace StaysArranged

/-- Definitions stay under their parents and keep their children; there is no user, no version and
    no child that was not there, or is not there now. -/
theorem of_origin (hunder : StaysUnder c c')
    (hdefinitions : ∀ {x d'}, c'.definition? x = some d' →
      (∀ y ∈ d'.references, c'.Has y) ∧ d'.kind.children = [] ∨
      ∃ d, c.definition? x = some d ∧ (∀ y ∈ d'.references, y ∈ d.references ∨ c'.Has y) ∧
        d'.kind.children = d.kind.children)
    (hroots : ∀ i, ∀ version ∈ c'.versions i, version ∈ c.versions i ∨ c'.Has version.root) :
    StaysArranged c c' := by
  refine ⟨hunder, fun h => ⟨fun {x d'} hd' y hy => ?_, fun i version hversion => ?_,
    fun {x d'} hd' => ?_, fun {x d'} hd' y hy => ?_⟩⟩
  · rcases hdefinitions hd' with ⟨hnew, -⟩ | ⟨d, hd, hreferences, -⟩
    · exact hnew y hy
    · exact (hreferences y hy).elim (fun hy => hunder.has (h.users hd y hy)) fun hy => hy
  · exact (hroots i version hversion).elim (fun hold => hunder.has (h.roots i version hold))
      fun hnew => hnew
  · rcases hdefinitions hd' with ⟨-, hnone⟩ | ⟨d, hd, -, hchildren⟩
    · rw [hnone]
      exact .nil
    · rw [hchildren]
      exact h.ascending hd
  · rcases hdefinitions hd' with ⟨-, hnone⟩ | ⟨d, hd, -, hchildren⟩
    · rw [hnone] at hy
      cases hy
    · rw [hchildren] at hy
      obtain ⟨part, hpart, hparent⟩ := h.parts hd y hy
      obtain ⟨part', hpart', hparent'⟩ := hunder y part hpart
      exact ⟨part', hpart', hparent'.trans hparent⟩

/-- A change that leaves definitions, and adds no version but with a root that is there. -/
theorem of_eq (hdefinitions : c'.definitions = c.definitions)
    (hroots : ∀ i, ∀ version ∈ c'.versions i, version ∈ c.versions i ∨ c.Has version.root) :
    StaysArranged c c' := by
  have hsame := definition?_of_definitions_eq hdefinitions
  have hunder : StaysUnder c c' := fun x d hd => ⟨d, (hsame x).trans hd, rfl⟩
  refine .of_origin hunder (fun {x d'} hd' => Or.inr ?_)
    fun i version hversion => (hroots i version hversion).imp_right hunder.has
  exact ⟨d', hsame x ▸ hd', fun _ => Or.inl, rfl⟩

theorem modifyDocument (c : Context) (document : DocumentId) {f : Document → Document}
    (hf : ∀ d, ∀ version ∈ (f d).versions, version ∈ d.versions ∨ c.Has version.root) :
    StaysArranged c (c.modifyDocument document f) := by
  refine .of_eq rfl fun i version hversion => ?_
  simp only [versions, document?, Context.modifyDocument, Array.getElem?_modify] at hversion ⊢
  split at hversion
  · rcases hd : c.documents[i.index]? with _ | d <;> rw [hd] at hversion
    · cases hversion
    · exact hf d version hversion
  · exact Or.inl hversion

theorem modifyFootnotes (c : Context) (document : Option DocumentId)
    (f : FootnoteList → FootnoteList) : StaysArranged c (c.modifyFootnotes document f) := by
  cases document with
  | none => exact .of_eq rfl fun _ _ => Or.inl
  | some document => exact .modifyDocument c document fun _ _ => Or.inl

/-- One definition is changed, but keeps its parent and its children. -/
theorem modifyDefinition {f : Definition → Definition} (hparent : ∀ d, (f d).parent = d.parent)
    (hreferences : ∀ d, ∀ y ∈ (f d).references, y ∈ d.references ∨ c.Has y)
    (hchildren : ∀ d, c.definition? id = some d → (f d).kind.children = d.kind.children) :
    StaysArranged c (c.modifyDefinition id f) := by
  have hunder : StaysUnder c (c.modifyDefinition id f) := .modifyDefinition c hparent
  refine .of_origin hunder (fun {x d'} hd' => Or.inr ?_) fun i version => Or.inl
  rcases of_definition?_modifyDefinition hd' with ⟨-, hd'⟩ | ⟨rfl, d, hd, rfl⟩
  · exact ⟨d', hd', fun _ => Or.inl, rfl⟩
  · exact ⟨d, hd, fun y hy => (hreferences d y hy).imp_right hunder.has, hchildren d hd⟩

theorem addReference (c : Context) (definition : DefinitionId) {user : DefinitionId}
    (huser : c.Has user) : StaysArranged c (c.addReference definition user) :=
  .modifyDefinition (fun _ => rfl) (fun _ y hy => (List.mem_append.1 hy).imp_right fun hy => by
    rwa [List.mem_singleton.1 hy]) fun _ _ => rfl

theorem modifyKind {f : DefinitionKind → DefinitionKind}
    (hf : ∀ d, c.definition? id = some d → (f d.kind).children = d.kind.children) :
    StaysArranged c (c.modifyDefinition id fun d => { d with kind := f d.kind }) :=
  .modifyDefinition (fun _ => rfl) (fun _ _ => Or.inl) hf

theorem modifyContent (c : Context) (id : DefinitionId) (f : Content → Content) :
    StaysArranged c (c.modifyContent id f) := by
  rw [modifyContent_eq]
  exact .modifyKind fun d _ => d.kind.children_mapContents f

/-- Fonts are converted. -/
theorem of_converts (h : Converts c c') : StaysArranged c c' := by
  refine .of_origin (fun x d hd => ?_) (fun {x d'} hd' => Or.inr ?_)
    fun i version hversion => Or.inl ?_
  · obtain ⟨kind, hd', -⟩ := h.definition hd
    exact ⟨_, hd', rfl⟩
  · obtain ⟨d, kind, hd, rfl, hk⟩ := h.of_definition? hd'
    refine ⟨d, hd, fun _ => Or.inl, ?_⟩
    cases hk with
    | same => rfl
    | fonts => exact d.kind.children_mapContents _
  · have hunresolved : ∀ c : Context, c.unresolved.versions i = c.versions i :=
      fun c => c.versions_core i
    rwa [← hunresolved, ← h.written, hunresolved]

/-- A definition without children that nobody has used is added. -/
theorem addDefinition (c : Context) {d : Definition} (hreferences : d.references = [])
    (hchildren : d.kind.children = []) (document : Option DocumentId) :
    StaysArranged c (c.addDefinition d document).2 := by
  refine .of_origin (fun x d' hd' => ⟨d', definition?_addDefinition_of_some hd', rfl⟩)
    (fun {x d'} hd' => ?_) fun i version hversion => Or.inl ?_
  · rcases of_definition?_addDefinition hd' with hd' | ⟨-, rfl⟩
    · exact Or.inr ⟨d', hd', fun _ => Or.inl, rfl⟩
    · refine Or.inl ⟨?_, hchildren⟩
      rw [show ({ d with document } : Definition).references = [] from hreferences]
      rintro _ ⟨⟩
  · have hkey : ∀ key id, (c.registerKey document key id).versions i = c.versions i := by
      intro key id
      unfold registerKey
      rcases document with _ | document <;> rcases (c.keysOf _).get? key with _ | _ <;>
        first
        | rfl
        | simp only [versions, document?, Context.modifyDocument, Array.getElem?_modify, warn]
          split
          · rw [Option.map_map]
            rfl
          · rfl
    unfold Context.addDefinition at hversion
    rcases hd : d.key with _ | key <;> rw [hd] at hversion
    · exact hversion
    · exact hkey key _ ▸ hversion

end StaysArranged

/-- A definition becomes the last child of its parent. -/
theorem IsArranged.adopt {d part : Definition} {kind : DefinitionKind} (h : c.IsArranged)
    (hd : c.definition? id = some d) (hkind : kind.children = d.kind.children ++ [x])
    (hpart : c.definition? x = some part) (hparent : part.parent = some id)
    (hlast : ∀ y ∈ d.kind.children, y.index < x.index) :
    (c.modifyDefinition id fun d => { d with kind }).IsArranged := by
  have hunder : StaysUnder c (c.modifyDefinition id fun d => { d with kind }) :=
    .modifyDefinition c fun _ => rfl
  have hcases : ∀ {y d'}, (c.modifyDefinition id fun d => { d with kind }).definition? y = some d' →
      y = id ∧ d' = { d with kind } ∨ c.definition? y = some d' := by
    intro y d' hd'
    rcases of_definition?_modifyDefinition hd' with ⟨-, hd'⟩ | ⟨rfl, d₁, hd₁, rfl⟩
    · exact Or.inr hd'
    · cases hd.symm.trans hd₁
      exact Or.inl ⟨rfl, rfl⟩
  constructor
  · intro y d' hd' user huser
    rcases hcases hd' with ⟨rfl, rfl⟩ | hd'
    · exact hunder.has (h.users hd user huser)
    · exact hunder.has (h.users hd' user huser)
  · exact fun i version hversion => hunder.has (h.roots i version hversion)
  · intro y d' hd'
    rcases hcases hd' with ⟨rfl, rfl⟩ | hd'
    · rw [hkind]
      refine List.pairwise_append.2 ⟨h.ascending hd, List.pairwise_singleton _ _, ?_⟩
      intro z hz _ hx
      rw [List.mem_singleton.1 hx]
      exact hlast z hz
    · exact h.ascending hd'
  · intro y d' hd' z hz
    obtain ⟨part', hpart', hparent'⟩ : ∃ part, c.definition? z = some part ∧
        part.parent = some y := by
      rcases hcases hd' with ⟨rfl, rfl⟩ | hd'
      · rw [hkind] at hz
        rcases List.mem_append.1 hz with hz | hz
        · exact h.parts hd z hz
        · exact ⟨part, List.mem_singleton.1 hz ▸ hpart, hparent⟩
      · exact h.parts hd' z hz
    obtain ⟨part₁, hpart₁, hparent₁⟩ := hunder z part' hpart'
    exact ⟨part₁, hpart₁, hparent₁.trans hparent'⟩

namespace StaysArranged

/-- A child is added: it has the greatest number and stands behind the children there are. -/
theorem addChild (c : Context) {parent : DefinitionId} (key : Option String) {kind : DefinitionKind}
    (hkind : kind.children = []) (hp : c.Has parent) :
    StaysArranged c (c.addChild parent key kind).2 := by
  unfold Context.addChild
  dsimp only
  generalize (c.definition? parent).bind Definition.document = document
  have hadd : StaysArranged c (c.addDefinition { key, parent := some parent, kind } document).2 :=
    .addDefinition c rfl hkind document
  obtain ⟨d, hd⟩ := has_iff.1 hp
  have hd₁ : (c.addDefinition { key, parent := some parent, kind } document).2.definition? parent =
      some d := definition?_addDefinition_of_some hd
  rw [hd₁, Option.map_some]
  split
  · rename_i body hbody
    replace hbody : d.kind = .section body := Option.some.inj hbody
    refine ⟨composes_staysUnder.trans hadd.1 (.modifyDefinition _ fun _ => rfl), fun h => ?_⟩
    have hpart := (definition?_addDefinition c { key, parent := some parent, kind } document
      (c.addDefinition { key, parent := some parent, kind } document).1).trans (if_pos rfl)
    refine (hadd.2 h).adopt hd₁ (by rw [hbody]; rfl) hpart rfl fun y hy => ?_
    obtain ⟨part, hpart, -⟩ := h.parts hd y hy
    exact index_lt_of_definition? hpart
  · exact composes_staysArranged.trans hadd (.of_eq rfl fun _ _ => Or.inl)
  · exact hadd

/-- A text becomes unread. -/
theorem setSourceText (c : Context) (id : DefinitionId) (source : String) :
    StaysArranged c (c.setSourceText id source) := by
  unfold Context.setSourceText
  rcases hd : c.definition? id with _ | d
  · exact composes_staysArranged.refl c
  rcases hk : d.kind with body | content | content | reference | _ | _ | _ <;>
    simp only [Option.map_some, hk]
  case «section» | stanza | paragraph =>
    refine .modifyDefinition (fun _ => rfl) (fun _ _ => Or.inl) fun d' hd' => ?_
    cases hd.symm.trans hd'
    rw [hk]
    rfl
  all_goals exact .of_eq rfl fun _ _ => Or.inl

end StaysArranged

end Context

/-- An edit that names what is there leaves everything arranged. -/
theorem Edit.staysArranged {e : Edit} (he : e.IsGiven c) : StaysArranged c (e.apply c) := by
  have hparent : ∀ parent, e.parent? = some parent → c.Has parent := fun parent hp =>
    has_iff.2 (Option.isSome_iff_exists.1 (he.applies.1 parent hp))
  cases e with
  | addDocument key name =>
    refine .of_eq rfl fun i version hversion => Or.inl ?_
    change version ∈ ((c.documents.push { key, name })[i.index]?.map Document.versions).getD []
      at hversion
    rw [Array.getElem?_push] at hversion
    split at hversion
    · cases hversion
    · exact hversion
  | setAuthor document author => exact .modifyDocument c document fun _ _ => Or.inl
  | addVersion document language font =>
    have hadd : StaysArranged c (c.addDefinition
        { language := some language, font, kind := .section {} } (some document)).2 :=
      .addDefinition c rfl rfl _
    refine composes_staysArranged.trans hadd
      (.modifyDocument _ document fun d version hversion => ?_)
    refine (List.mem_append.1 hversion).imp_right fun hnew => ?_
    rw [List.mem_singleton.1 hnew, Has, definitions_addDefinition, Array.size_push]
    exact Nat.lt_succ_self _
  | addSection parent key | addStanza parent key | addParagraph parent key
  | addPartReference parent key => exact .addChild c key rfl (hparent parent rfl)
  | addDefinition d document =>
    obtain ⟨hkind, hreferences⟩ := he.2.2 d rfl
    exact .addDefinition c hreferences hkind.children document
  | setSourceText id source => exact .setSourceText c id source
  | setLanguage | setFont =>
    exact .modifyDefinition (fun _ => rfl) (fun _ _ => Or.inl) fun _ _ => rfl
  | addReference definition user => exact .addReference c definition (he.1 user (by simp [named]))
  | setCommands | setFonts | registerAnalyzer | setSettings => exact .of_eq rfl fun _ _ => Or.inl

/-! ### Passes -/

/-- What commands in the text of a definition do leaves everything arranged. -/
theorem permitsAt_staysArranged (owner : DefinitionId) :
    PermitsAt owner (fun _ => True) fun c c' => c.Has owner → StaysArranged c c' where
  refl c _ := composes_staysArranged.refl c
  trans h h' howner := composes_staysArranged.trans (h howner) (h' ((h howner).1.has howner))
  warn _ _ _ := .of_eq rfl fun _ _ => Or.inl
  reference c definition howner := .addReference c definition howner
  number _ c document _ := .modifyFootnotes c document _
  boolean _ c _ _ := .addDefinition c rfl rfl none

/-- The command pass of a definition leaves everything arranged, however it ends. -/
theorem staysArranged_handleCommands (n : Nat) (id : DefinitionId) :
    (Engine.handleCommands n id).Moves StaysArranged := by
  have hdepth : ∀ (c : Context) depth, StaysArranged c (c.atDepth depth) :=
    fun _ _ => .of_eq rfl fun _ _ => Or.inl
  refine Engine.handleCommands_moves composes_staysArranged
    (fun {c c₁} h => composes_staysArranged.trans (hdepth c _)
      (composes_staysArranged.trans h (hdepth c₁ _)))
    (fun {c id target d reference} hd _ _ _ => ?target)
    (fun n hh {c id d content r c'} hd _ h => ?content) n id
  case target =>
    refine composes_staysArranged.trans (.addReference c target (has_iff.2 ⟨d, hd⟩)) ?_
    rw [setTarget_eq]
    refine .modifyKind fun d' _ => ?_
    cases d'.kind <;> rfl
  case content =>
    have hid : c.Has id := has_iff.2 ⟨d, hd⟩
    have hpermits := permitsAt_staysArranged id
    have hhandle : ∀ y, (Engine.handleCommands n y).Moves
        fun c c' => c.Has id → StaysArranged c c' := fun y _ _ _ h _ => hh y _ _ _ h
    refine Engine.resolveContent_moves_of_execute (R := fun c c' => c.Has id → StaysArranged c c')
      hpermits.toComposes (fun tags l => ?execute) hd
      (fun {written tags l notes c₁} _ _ _ h hid => ?_) h hid
    case execute =>
      exact Inline.executeList_moves_at hpermits hhandle l (fun _ _ => Inline.uses_all) tags
    exact composes_staysArranged.trans (h hid) (composes_staysArranged.trans
      (.modifyFootnotes c₁ d.document _) (.modifyContent _ id _))

/-- The font pass of a definition leaves everything arranged, however it ends. -/
theorem staysArranged_handleFonts (n : Nat) (id : DefinitionId) :
    (Engine.handleFonts n id).Moves StaysArranged :=
  fun _ _ _ h => .of_converts (converts_handleFonts n id _ _ _ h)

theorem Context.Arises.isArranged (h : c.Arises) : c.IsArranged := by
  induction h with
  | new settings => exact isArranged_new settings
  | edit _ he ih => exact (Edit.staysArranged he).2 ih
  | call _ _ hends ih =>
    exact (hends.moves composes_staysArranged staysArranged_handleCommands
      staysArranged_handleFonts).2 ih

/-! ## What commands evaluate to -/

/-- If the command stands for a parameter, it has that parameter. -/
def Inline.HasParameter : Inline → Prop
  | command _ _ parameters _ evaluation =>
    ∀ i, evaluation.output? = some (.parameter i) → i < parameters.length
  | _ => True

/-- What the command evaluates to is there. -/
def Context.Fits (c : Context) (j : Inline) : Prop :=
  j.HasParameter ∧ ∀ t, j.target? = some t → c.Has t

theorem Context.Recalls.has (h : Recalls c c') (hx : c.Has x) : c'.Has x := by
  obtain ⟨d, hd⟩ := has_iff.1 hx
  obtain ⟨d', hd', -⟩ := h x d hd
  exact has_iff.2 ⟨d', hd'⟩

theorem Context.has_of_mem_references (h : y ∈ c.references x) : c.Has x := by
  rw [Context.references] at h
  rcases hd : c.definition? x with _ | d <;> rw [hd] at h
  · cases h
  · exact has_iff.2 ⟨d, hd⟩

/-- No kind that executes its parameters first stands for one of them. -/
theorem Invocation.Effects.output_ne_parameter {handle : DefinitionId → Engine Unit}
    {call : Invocation} {kind : CommandKind} {ps : List Inline} {effect : Effect}
    (h : Effects handle call c kind ps effect c') (i : Nat) : effect.output ≠ .parameter i := by
  cases h <;> rintro ⟨⟩

theorem Inline.HasParameter.remap {j : Inline} (h : j.HasParameter) (fonts : FontRegistry)
    (tags : Tags) : (j.remap fonts tags).HasParameter := by
  rcases j with _ | _ | ⟨name, kind, parameters, own, evaluation⟩
  · trivial
  · trivial
  · intro i hi
    rw [Inline.remapList_eq, List.length_map]
    rw [output?_remapEvaluation] at hi
    obtain ⟨output, houtput, hi⟩ := Option.map_eq_some_iff.1 hi
    cases output with
    | parameter => exact h i (houtput.trans (congrArg some hi))
    | definition | inline => cases hi

/-- What an executed command evaluates to is there. -/
theorem fits_law {handle : DefinitionId → Engine Unit} (hh : ∀ id, (handle id).Moves Recalls)
    (scope : Scope) : Inline.CommandLaw handle scope (fun _ => True) (fun _ => True) Recalls
      Context.Fits where
  pending {c j} hj := by
    refine ⟨?_, fun t ht => ?_⟩
    · rcases j with _ | _ | _
      · trivial
      · trivial
      · cases hj
        rintro i ⟨⟩
    · rw [Inline.target?_of_pending hj] at ht
      cases ht
  mono hr h := ⟨h.1, fun t ht => hr.has (h.2 t ht)⟩
  ternary value _ := by
    refine ⟨fun i hi => ?_, fun t ht => by cases ht⟩
    cases hi
    cases value <;> simp
  language := by
    refine ⟨fun i hi => ?_, fun t ht => ?_⟩
    · cases hi
    · cases ht
  command _ _ _ heffects := by
    refine ⟨fun i hi => ?_, fun t ht => ?_⟩
    · rw [Evaluation.output?_of] at hi
      exact absurd (Option.some.inj hi) (heffects.output_ne_parameter i)
    · exact has_of_mem_references (mem_references_of_effects hh heffects (output_of_target? ht))

namespace Context

/-- What commands evaluate to is there in texts and in listed footnotes. -/
theorem noteLaw_fits : NoteLaw
    (fun c _ content => ∀ j ∈ Inline.nestedList content.inlines, c.Fits j)
    fun c note => ∀ j ∈ note.body.nested, c.Fits j where
  toTextLaw := Inline.CommandLaw.textLaw
    (fun n _ _ => fits_law (fun id _ _ _ h => .of_extends (extends_handleCommands n id _ _ _ h)) _)
    fun fonts tags h => ⟨h.1.remap fonts tags, fun t ht =>
      h.2 t (by rwa [Inline.target?_remap] at ht)⟩
  keep hr h j hj := ⟨(h j hj).1, fun t ht => hr.has ((h j hj).2 t ht)⟩
  stand h note hnote j hj := by
    obtain ⟨i, hi, hnote⟩ := List.mem_filterMap.1 hnote
    obtain ⟨k, hk, hik⟩ := Inline.mem_nestedList.1 hi
    refine h j (Inline.mem_nestedList.2 ⟨k, hk, Inline.nested_trans hik ?_⟩)
    exact Inline.nested_trans (Inline.body_mem_nested hnote) hj

/-- Edits that name what is there add no text but unread ones. -/
theorem TextLaw.unread_of_isGiven {Φ : Context → DefinitionId → Content → Prop} (law : TextLaw Φ)
    {e : Edit} (he : e.IsGiven c) : e.FindsDocument c ∧ ∀ d ∈ e.made?, ∀ content ∈ d.kind.contents,
      Φ (e.apply c) ⟨c.definitions.size⟩ content :=
  ⟨he.2.1, fun d hd content hcontent => law.unread (he.addsUnread.2 d hd content hcontent)⟩

/-! ## Well-formed contexts -/

/-- Whatever the context stores by number is there. -/
structure IsWellFormed (c : Context) : Prop extends c.IsLinked, c.IsArranged where
  documents : ∀ {x d}, c.definition? x = some d → c.HasList d.document
  texts : ∀ {x d}, c.definition? x = some d → ∀ content ∈ d.kind.contents,
    ∀ j ∈ Inline.nestedList content.inlines, c.Fits j
  notes : ∀ {document note}, note ∈ c.footnotes document → ∀ j ∈ note.body.nested, c.Fits j

theorem Arises.isWellFormed (h : c.Arises) : c.IsWellFormed where
  toIsLinked := h.isLinked
  toIsArranged := h.isArranged
  documents hd := Reached.hasDocuments (fun _ _ he => he.2.1) h hd
  texts hd := noteLaw_fits.toTextLaw.of_reached noteLaw_fits.unread_of_isGiven h _ _ hd
  notes hnote := noteLaw_fits.allListed noteLaw_fits.unread_of_isGiven h _ _ hnote

namespace IsWellFormed

variable (h : c.IsWellFormed) {d : Definition} (hd : c.definition? x = some d)
include h hd

/-- The children of a section are different, come after it, and are in no other section. -/
theorem children : d.kind.children.Nodup ∧ ∀ y ∈ d.kind.children, x.index < y.index ∧
    ∀ x' d', c.definition? x' = some d' → y ∈ d'.kind.children → x' = x := by
  refine ⟨(h.ascending hd).imp ?_, fun y hy => ?_⟩
  · rintro y _ hlt rfl
    exact Nat.lt_irrefl _ hlt
  · obtain ⟨part, hpart, hparent⟩ := h.parts hd y hy
    refine ⟨h.parents hpart hparent, fun x' d' hd' hy' => ?_⟩
    obtain ⟨part', hpart', hparent'⟩ := h.parts hd' y hy'
    cases hpart.symm.trans hpart'
    exact Option.some.inj (hparent'.symm.trans hparent)

omit hd in
/-- Under a depth limit the passes of a definition that is there end, unless they come to render
    what is circular: they go on to nothing that is missing. -/
theorem passes {n : Nat} (hlimit : c.settings.depthLimit = some n) (hx : c.Has x) :
    (∃ r c', (Call.fonts x).Ends c r c') ∧
      ((∀ y, c.MayRender x y → ¬ c.IsCircular y) → ∃ r c', (Call.commands x).Ends c r c') := by
  have hlinked := h.toIsLinked
  refine ⟨?_, fun hcircle => ?_⟩
  · obtain ⟨r, c', hends, -⟩ :=
      answers_handleFonts (n := n) hx c ⟨hlimit, rfl, hlinked.grounded⟩
    exact ⟨r, c', n - c.depth + 1, hends⟩
  · have hconfines := c.confines_mayRender x
    have hfree : ∀ y, c.MayRender x y ∨ c.IsBare y → ¬ c.IsCircular y := fun y hy =>
      hy.elim (hcircle y) IsBare.not_isCircular
    obtain ⟨r, c', hends⟩ := endsFrom_handleCommands hconfines hfree MayEnter.renders hlimit
      (Or.inl .refl) (guarded_self hconfines hlinked) hx
    exact ⟨r, c', n - c.depth + 1, hends⟩

end IsWellFormed

end Context

/-- **The state stays well formed.**  After any edits that name what the context has handed out,
    and any calls, however they end, every definition and every document that is stored anywhere
    is there, and every command that stands for a parameter has it (`IsWellFormed`).  So

    * the children of a section are different, come after the section, and are in no other one;
    * a definition has tags in effect, it has a text and rows if those that these are made of have,
      and under a depth limit its passes end unless they come to render a circle: nothing is
      missing where it is looked for. -/
theorem wellFormed_of_arises (h : c.Arises) : c.IsWellFormed ∧
    ∀ x d, c.definition? x = some d →
      (d.kind.children.Nodup ∧ ∀ y ∈ d.kind.children, x.index < y.index ∧
        ∀ x' d', c.definition? x' = some d' → y ∈ d'.kind.children → x' = x) ∧
      (c.effectiveTags? x).isSome ∧
      ((∀ y ∈ d.kind.shownLinks, (c.segments? y).isSome) → (c.segments? x).isSome) ∧
      ((∀ y ∈ d.kind.parts, (c.rows? y).isSome) → (c.rows? x).isSome) ∧
      ∀ n, c.settings.depthLimit = some n → (∃ r c', (Call.fonts x).Ends c r c') ∧
        ((∀ y, c.MayRender x y → ¬ c.IsCircular y) → ∃ r c', (Call.commands x).Ends c r c') := by
  have hwell := h.isWellFormed
  refine ⟨hwell, fun x d hd => ?_⟩
  have hx : c.Has x := has_iff.2 ⟨d, hd⟩
  have htags := hwell.effectiveTags? hx
  exact ⟨hwell.children hd, htags, segments?_isSome_of_links hd htags,
    rows?_isSome_of_parts hd, fun n hlimit => hwell.passes hlimit hx⟩

/-- A title makes a truth value while its section is handled; a stanza inserts another one in a
    footnote if the truth value holds, and a part reference has found that one, too. -/
theorem wellFormed_of_arises_of_section :
    ∃ c : Context, c.Arises ∧ c.IsWellFormed ∧ c.text? ⟨0⟩ = some "true\nx\n[1]\nx" ∧
      (∃ d ∈ c.definition? ⟨1⟩, d.kind.children = [⟨2⟩, ⟨3⟩] ∧ d.kind.children.Nodup) ∧
      c.references ⟨2⟩ = [⟨3⟩, ⟨4⟩] ∧ c.references ⟨5⟩ = [⟨1⟩, ⟨3⟩] ∧ c.Has ⟨5⟩ ∧
      (c.footnotes (some ⟨0⟩)).length = 1 := by
  let edits := [Edit.addDocument "d" "D", .addVersion ⟨0⟩ (.ofKnown .coptic) none,
    .addSection ⟨0⟩ none (some "\\true"), .addStanza ⟨1⟩ (some "a") "x",
    .addStanza ⟨1⟩ none "\\ternary\x7b\\true\x7d\x7b\\footnote\x7b\\def\x7ba\x7d\x7d\x7d\x7bz\x7d",
    .addPartReference ⟨0⟩ none "a"]
  let c₀ := edits.foldl Edit.apply (.new {})
  let c := (Call.commands ⟨0⟩).run 5 c₀
  have h₀ : c₀.Arises := (Reached.new {}).edits (by decide +kernel)
  have h : c.Arises := .call h₀ trivial (Call.ends_run (by decide +kernel))
  obtain ⟨d, hd, hchildren⟩ : ∃ d ∈ c.definition? ⟨1⟩, d.kind.children = [⟨2⟩, ⟨3⟩] := by
    decide +kernel
  obtain ⟨hwell, hall⟩ := wellFormed_of_arises h
  exact ⟨c, h, hwell, by decide +kernel, ⟨d, hd, hchildren, (hall _ d hd).1.1⟩, by decide +kernel,
    by decide +kernel, by decide +kernel, by decide +kernel⟩

end Rubric
