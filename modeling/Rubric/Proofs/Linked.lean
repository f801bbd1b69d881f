/-
  Rubric — whatever a context leads to is there.

  * `Context.IsLinked`: keys, parts, targets and executed commands lead to
    definitions that exist, and parents come before their parts;
  * `IsLinked.effectiveTags?`: then tags are in effect at every definition;
  * `Context.StaysLinked`: what edits and passes do between two contexts;
    `Edit.staysLinked`, `staysLinked_handleCommands`;
  * **`Session.isLinked`**: in a session everything is linked.
-/
import Rubric.Proofs.Keys
import Rubric.Proofs.Nested

namespace Rubric

open Context

variable {c c' c₁ c₂ : Context} {id x y : DefinitionId}

/-! ## Linked contexts -/

namespace Context

/-- There is a definition of the number. -/
def Has (c : Context) (x : DefinitionId) : Prop :=
  x.index < c.definitions.size

theorem has_iff : c.Has x ↔ ∃ d, c.definition? x = some d := by
  simp only [Has, definition?, Array.getElem?_eq_some_iff]
  constructor
  · exact fun h => ⟨_, h, rfl⟩
  · rintro ⟨_, h, -⟩
    exact h

/-- Keys, parts, targets and executed commands lead to definitions that exist, and parents come
    before their parts. -/
structure IsLinked (c : Context) : Prop where
  keys : ∀ {d key y}, (c.keysOf d).get? key = some y → c.Has y
  links : ∀ {x d}, c.definition? x = some d → ∀ y ∈ d.kind.links, c.Has y
  parents : ∀ {x d p}, c.definition? x = some d → d.parent = some p → p.index < x.index

theorem isLinked_new (settings : Settings) : (new settings).IsLinked := by
  constructor
  · intro d key y h; cases d <;> cases h
  · intro x d h; cases h
  · intro x d p h; cases h

namespace IsLinked

variable (h : c.IsLinked)
include h

theorem lookup? {key : String} {document : Option DocumentId}
    (hy : c.lookup? key document = some y) : c.Has y := by
  rcases Option.or_eq_some_iff.1 hy with hy | ⟨-, hy⟩
  · obtain ⟨d, -, hy⟩ := Option.bind_eq_some_iff.1 hy
    exact h.keys hy
  · exact h.keys (d := none) hy

/-- Along parents that come before their parts the tags are found. -/
theorem tagsWithin {n : Nat} {found : Tags} (hx : c.Has x) (hn : x.index < n) :
    (c.tagsWithin n found x).isSome := by
  induction n generalizing found x with
  | zero => omega
  | succ n ih =>
    obtain ⟨d, hd⟩ := has_iff.1 hx
    rw [Context.tagsWithin, hd]
    dsimp only [Option.bind_eq_bind, Option.bind_some]
    split
    · rfl
    rcases hp : d.parent with _ | p
    · rfl
    · have hlt := h.parents hd hp
      exact ih (x := p) (Nat.lt_trans hlt hx) (by omega)

theorem effectiveTags? (hx : c.Has x) : (c.effectiveTags? x).isSome :=
  h.tagsWithin hx hx

/-! ### Changes -/

/-- A change by which no key and no definition leads anywhere but where it led before, or to what
    exists, and no definition has come under a later one. -/
theorem of_origin (hsize : c.definitions.size ≤ c'.definitions.size)
    (hkeys : ∀ {d key y}, (c'.keysOf d).get? key = some y →
      (c.keysOf d).get? key = some y ∨ c'.Has y)
    (hdefinitions : ∀ {x d'}, c'.definition? x = some d' →
      (∃ d, c.definition? x = some d ∧ d'.parent = d.parent ∧
        ∀ y ∈ d'.kind.links, y ∈ d.kind.links ∨ c'.Has y) ∨
      (∀ p, d'.parent = some p → p.index < x.index) ∧ ∀ y ∈ d'.kind.links, c'.Has y) :
    c'.IsLinked := by
  have hold : ∀ {y}, c.Has y → c'.Has y := fun hy => Nat.lt_of_lt_of_le hy hsize
  constructor
  · intro d key y hy
    exact (hkeys hy).elim (fun hy => hold (h.keys hy)) fun hy => hy
  · intro x d' hd' y hy
    rcases hdefinitions hd' with ⟨d, hd, -, hlinks⟩ | ⟨-, hlinks⟩
    · exact (hlinks y hy).elim (fun hy => hold (h.links hd y hy)) fun hy => hy
    · exact hlinks y hy
  · intro x d' p hd' hp
    rcases hdefinitions hd' with ⟨d, hd, hparent, -⟩ | ⟨hparent, -⟩
    · exact h.parents hd (hparent.symm.trans hp)
    · exact hparent p hp

end IsLinked

/-- From a linked context this leads to a linked one, in which nothing is missing that was there. -/
def StaysLinked (c c' : Context) : Prop :=
  c.IsLinked → c'.IsLinked ∧ c.definitions.size ≤ c'.definitions.size

theorem composes_staysLinked : Engine.Composes StaysLinked where
  refl _ h := ⟨h, Nat.le_refl _⟩
  trans h h' hc := by
    obtain ⟨hc₁, hle⟩ := h hc
    obtain ⟨hc₂, hle'⟩ := h' hc₁
    exact ⟨hc₂, Nat.le_trans hle hle'⟩

namespace StaysLinked

/-- A change that leaves keys and definitions. -/
theorem of_eq (hdefinitions : c'.definitions = c.definitions)
    (hkeys : ∀ d, c'.keysOf d = c.keysOf d) : StaysLinked c c' := by
  intro h
  have hsize : c.definitions.size ≤ c'.definitions.size := by rw [hdefinitions]
  refine ⟨h.of_origin hsize (fun hy => Or.inl (hkeys _ ▸ hy)) fun {x d'} hd' => Or.inl ?_, hsize⟩
  rw [definition?_of_definitions_eq hdefinitions] at hd'
  exact ⟨d', hd', rfl, fun y hy => Or.inl hy⟩

theorem of_core_eq (he : c'.core = c.core) : StaysLinked c c' := by
  intro h
  have hsize : c'.definitions.size = c.definitions.size :=
    size_of_unresolved_eq (unresolved_of_core_eq he)
  refine ⟨h.of_origin (Nat.le_of_eq hsize.symm) (fun {d _ _} hy => Or.inl ?_)
    fun hd' => Or.inl ?_, Nat.le_of_eq hsize.symm⟩
  · rwa [keysOf_of_core_eq he] at hy
  · obtain ⟨references, hd⟩ := definition?_of_core_eq he.symm hd'
    exact ⟨_, hd, rfl, fun y hy => Or.inl hy⟩

/-- One definition is changed, but stays under its parent. -/
theorem modifyDefinition {f : Definition → Definition} (hparent : ∀ d, (f d).parent = d.parent)
    (hlinks : ∀ {d}, c.definition? id = some d →
      ∀ y ∈ (f d).kind.links, y ∈ d.kind.links ∨ c.Has y) :
    StaysLinked c (c.modifyDefinition id f) := by
  intro h
  have hsize : (c.modifyDefinition id f).definitions.size = c.definitions.size :=
    Array.size_modify ..
  refine ⟨h.of_origin (Nat.le_of_eq hsize.symm) Or.inl fun {x d'} hd' => Or.inl ?_,
    Nat.le_of_eq hsize.symm⟩
  simp only [Has, hsize]
  rcases of_definition?_modifyDefinition hd' with ⟨-, hd'⟩ | ⟨rfl, d, hd, rfl⟩
  · exact ⟨d', hd', rfl, fun y hy => Or.inl hy⟩
  · exact ⟨d, hd, hparent d, hlinks hd⟩

/-- Fonts are converted. -/
theorem of_converts (hc : Converts c c') : StaysLinked c c' := by
  intro h
  have hsize := size_of_unresolved_eq hc.written
  refine ⟨h.of_origin (Nat.le_of_eq hsize.symm) (fun {d key y} hy => Or.inl ?_)
    fun hd' => Or.inl ?_, Nat.le_of_eq hsize.symm⟩
  · have hunresolved : ∀ c : Context, c.unresolved.keysOf d = c.keysOf d := fun c => c.keysOf_core d
    rwa [← hunresolved, ← hc.written, hunresolved]
  · obtain ⟨d, kind, hd, rfl, hk⟩ := hc.of_definition? hd'
    refine ⟨d, hd, rfl, fun y hy => Or.inl ?_⟩
    cases hk with
    | same => exact hy
    | fonts =>
      rwa [DefinitionKind.links, DefinitionKind.targets_resolveFonts,
        DefinitionKind.children_mapContents, DefinitionKind.target?_mapContents] at hy

end StaysLinked

/-! ## Edits -/

/-- A key is registered: under any key is what was there before, or what is registered. -/
theorem get?_keysOf_registerKey {document d : Option DocumentId} {key other : String}
    (h : ((c.registerKey document key id).keysOf d).get? other = some y) :
    (c.keysOf d).get? other = some y ∨ y = id := by
  by_cases hlist : c.HasList document
  · rw [keysOf_registerKey hlist] at h
    split at h
    · rw [Index.get?_insert] at h
      split at h
      · exact Or.inr (Option.some.inj h).symm
      · exact Or.inl h
    · exact Or.inl h
  · rw [keysOf_registerKey_of_not_hasList hlist] at h
    exact Or.inl h

namespace StaysLinked

/-- A definition is added that leads to definitions that are there, under a parent that exists. -/
theorem addDefinition (c : Context) {d : Definition} (hd : ∀ y ∈ d.kind.links, c.Has y)
    (hp : ∀ p, d.parent = some p → c.Has p) (document : Option DocumentId) :
    StaysLinked c (c.addDefinition d document).2 := by
  intro h
  have hsize : (c.addDefinition d document).2.definitions.size = c.definitions.size + 1 := by
    rw [definitions_addDefinition, Array.size_push]
  have hle : c.definitions.size ≤ (c.addDefinition d document).2.definitions.size := by omega
  refine ⟨h.of_origin hle (fun {s key y} hy => ?_) fun {x d'} hd' => ?_, hle⟩
  · unfold Context.addDefinition at hy
    generalize d.key = own at hy
    rcases own with _ | own
    · exact Or.inl hy
    · rcases get?_keysOf_registerKey (c := c) hy with hy | rfl
      · exact Or.inl hy
      · exact Or.inr (by rw [Has, hsize]; exact Nat.lt_succ_self _)
  · rcases of_definition?_addDefinition hd' with hd' | ⟨hx, rfl⟩
    · exact Or.inl ⟨d', hd', rfl, fun y hy => Or.inl hy⟩
    · exact Or.inr ⟨fun p hparent => hx ▸ hp p hparent,
        fun y hy => Nat.lt_of_lt_of_le (hd y hy) hle⟩

theorem modifyDocument (c : Context) (document : DocumentId) {f : Document → Document}
    (hf : ∀ document, (f document).keys = document.keys) :
    StaysLinked c (c.modifyDocument document f) :=
  .of_eq rfl (c.keysOf_modifyDocument document hf)

/-- A part that leads nowhere is added under a parent that exists. -/
theorem addChild (c : Context) {parent : DefinitionId} (key : Option String) {kind : DefinitionKind}
    (hkind : kind.links = []) (hp : c.Has parent) :
    StaysLinked c (c.addChild parent key kind).2 := by
  unfold Context.addChild
  dsimp only
  generalize (c.definition? parent).bind Definition.document = document
  have hadd : StaysLinked c (c.addDefinition { key, parent := some parent, kind } document).2 :=
    .addDefinition c (by rw [hkind]; rintro _ ⟨⟩) (by rintro p ⟨⟩; exact hp) document
  have hnew : (c.addDefinition { key, parent := some parent, kind } document).2.Has
      (c.addDefinition { key, parent := some parent, kind } document).1 := by
    rw [Has, definitions_addDefinition, Array.size_push]
    exact Nat.lt_succ_self _
  refine composes_staysLinked.trans hadd ?_
  generalize c.addDefinition { key, parent := some parent, kind } document = added at hnew ⊢
  split
  · rename_i body hbody
    obtain ⟨d₁, hd₁, hbody⟩ := Option.map_eq_some_iff.1 hbody
    refine .modifyDefinition (fun _ => rfl) fun {d} hd y hy => ?_
    cases hd₁.symm.trans hd
    rw [hbody]
    rcases DefinitionKind.mem_links.1 hy with hy | hy | hy
    · exact Or.inl (DefinitionKind.mem_links.2 (Or.inl hy))
    · rcases List.mem_append.1 hy with hy | hy
      · exact Or.inl (DefinitionKind.mem_links_of_child hy)
      · exact Or.inr (List.mem_singleton.1 hy ▸ hnew)
    · cases hy
  · exact .of_eq rfl fun d => by cases d <;> rfl
  · exact composes_staysLinked.refl _

/-- A text becomes unread, so that nothing is led to by it. -/
theorem setSourceText (c : Context) (id : DefinitionId) (source : String) :
    StaysLinked c (c.setSourceText id source) := by
  have hunread : Inline.targets (Content.ofSource source).inlines = [] :=
    Content.targets_of_unparsed rfl
  unfold Context.setSourceText
  split
  · refine .modifyDefinition (fun _ => rfl) fun _ y hy => ?_
    simp [DefinitionKind.links, DefinitionKind.targets, DefinitionKind.contents,
      DefinitionKind.children, DefinitionKind.target?, hunread] at hy
  · refine .modifyDefinition (fun _ => rfl) fun _ y hy => ?_
    simp [DefinitionKind.links, DefinitionKind.targets, DefinitionKind.contents,
      DefinitionKind.children, DefinitionKind.target?, hunread] at hy
  · rename_i body hbody
    obtain ⟨d₁, hd₁, hbody⟩ := Option.map_eq_some_iff.1 hbody
    refine .modifyDefinition (fun _ => rfl) fun {d} hd y hy => Or.inl ?_
    cases hd₁.symm.trans hd
    rw [hbody]
    refine DefinitionKind.mem_links_of_child ?_
    simpa [DefinitionKind.links, DefinitionKind.targets, DefinitionKind.contents,
      DefinitionKind.children, DefinitionKind.target?, hunread] using hy
  · exact .of_eq rfl fun d => by cases d <;> rfl
  · exact composes_staysLinked.refl _

end StaysLinked

end Context

/-- Unread texts lead nowhere. -/
theorem DefinitionKind.targets_of_unparsed {kind : DefinitionKind}
    (h : ∀ content ∈ kind.contents, content.stage = .unparsed) : kind.targets = [] :=
  List.eq_nil_iff_forall_not_mem.2 fun t ht => by
    obtain ⟨content, hmem, ht⟩ := DefinitionKind.mem_targets.1 ht
    rw [Content.targets_of_unparsed (h content hmem)] at ht
    cases ht

theorem DefinitionKind.IsFresh.links_eq_nil {kind : DefinitionKind} (h : kind.IsFresh) :
    kind.links = [] := by
  rw [DefinitionKind.links, targets_of_unparsed h.contents, h.children, h.target]
  rfl

/-- What may be added leads to definitions that are there. -/
theorem Context.Accepts.has {document : Option DocumentId} {kind : DefinitionKind}
    (h : c.Accepts document kind) : ∀ y ∈ kind.links, c.Has y := by
  intro y hy
  rw [DefinitionKind.mem_links, DefinitionKind.targets_of_unparsed h.contents, h.target] at hy
  rcases hy with hy | hy | hy
  · cases hy
  · obtain ⟨d, hd, -⟩ := h.children y hy
    exact has_iff.2 ⟨d, hd⟩
  · cases hy

/-- An edit that applies leaves everything linked. -/
theorem Edit.staysLinked {e : Edit} (he : e.Applies c) : StaysLinked c (e.apply c) := by
  have hparent : ∀ parent, e.parent? = some parent → c.Has parent := fun parent hp =>
    has_iff.2 (Option.isSome_iff_exists.1 (he.1 parent hp))
  cases e with
  | addDocument key name => exact .of_eq rfl (c.keysOf_addDocument key name)
  | setAuthor document author => exact .modifyDocument c document fun _ => rfl
  | addVersion document language font =>
    have hadd : StaysLinked c (c.addDefinition
        { language := some language, font, kind := .section {} } (some document)).2 :=
      .addDefinition c (by rintro _ ⟨⟩) (by rintro p ⟨⟩) _
    exact composes_staysLinked.trans hadd (.modifyDocument _ document fun _ => rfl)
  | addSection parent key title =>
    refine .addChild c key (DefinitionKind.IsFresh.links_eq_nil ⟨?_, rfl, rfl⟩) (hparent parent rfl)
    cases title <;> simp [DefinitionKind.contents, Content.ofSource]
  | addStanza parent key source | addParagraph parent key source =>
    refine .addChild c key (DefinitionKind.IsFresh.links_eq_nil ⟨?_, rfl, rfl⟩) (hparent parent rfl)
    simp [DefinitionKind.contents, Content.ofSource]
  | addPartReference parent key targetKey => exact .addChild c key rfl (hparent parent rfl)
  | addDefinition d document => exact .addDefinition c (he.2 d rfl).has hparent document
  | setSourceText id source => exact .setSourceText c id source
  | setLanguage | setFont => exact .modifyDefinition (fun _ => rfl) fun _ y hy => Or.inl hy
  | addReference definition user => exact .of_core_eq (c.core_addReference definition user)
  | setCommands | setFonts | registerAnalyzer | setSettings =>
    exact .of_eq rfl fun d => by cases d <;> rfl

/-! ## The command pass -/

/-- What any command does to a context leaves everything linked. -/
theorem permits_staysLinked : Permits (fun _ => True) StaysLinked where
  toComposes := composes_staysLinked
  warn c warnings := .of_core_eq (c.core_warnAll warnings)
  reference c definition user := .of_core_eq (c.core_addReference definition user)
  number _ c document := .of_core_eq (c.core_modifyFootnotes document _)
  boolean _ c _ := .addDefinition c (by rintro _ ⟨⟩) (by rintro p ⟨⟩) none

section
variable {handle : DefinitionId → Engine Unit}

/-- What a command stands for is there. -/
theorem has_of_effects {call : Invocation} {kind : CommandKind} {ps : List Inline} {effect : Effect}
    {t : DefinitionId} (hc : c.IsLinked) (hle : c.definitions.size ≤ c'.definitions.size)
    (h : Invocation.Effects handle call c kind ps effect c')
    (ht : effect.output = .definition t) : c'.Has t := by
  cases h with
  | definition _ hl | sharedBoolean hl =>
    cases ht
    exact Nat.lt_of_lt_of_le (hc.lookup? hl) hle
  | newBoolean =>
    cases ht
    rw [Has, addReference, modifyDefinition, Array.size_modify, addBoolean,
      definitions_addDefinition, Array.size_push]
    exact Nat.lt_succ_self _
  | value | lines | defaultLines | footnote | text => cases ht

/-- What an executed command stands for is there. -/
theorem linked_law (scope : Scope) : Inline.CommandLaw handle scope (fun _ => True) IsLinked
    (fun c c' => c.definitions.size ≤ c'.definitions.size)
    fun c j => ∀ t, j.target? = some t → c.Has t :=
  .of_targets (fun hle h => Nat.lt_of_lt_of_le h hle)
    fun _ hc hle heffects ht => has_of_effects hc hle heffects ht

variable (hh : ∀ id, (handle id).Moves StaysLinked)
include hh

/-- The commands of an unread text are handled: what has come of them is there. -/
theorem staysLinked_resolveContent {d : Definition} {content : Content} {r : Except Error Unit}
    (hd : c.definition? id = some d)
    (h : (Engine.resolveContent handle id content).Gives c r c') : StaysLinked c c' := by
  refine Engine.resolveContent_moves permits_staysLinked hh hd
    (fun {written tags l notes c₁} _ hwritten hl hc₁ hc => ?_) h
  obtain ⟨hstays, hl⟩ :=
    (linked_law _).targets_executeList permits_staysLinked hh
      (Markup.isFresh_of_mem_parse hwritten) (fun _ _ => Inline.uses_all) hc hl
  have hroute : StaysLinked c (c₁.routeFootnotes d.document notes) :=
    composes_staysLinked.trans (fun _ => hstays)
      (.of_core_eq (c₁.core_modifyFootnotes d.document _))
  refine composes_staysLinked.trans hroute ?_ hc
  rw [modifyContent_eq]
  refine .modifyDefinition (fun _ => rfl) fun _ y hy => ?_
  rw [DefinitionKind.mem_links, DefinitionKind.children_mapContents,
    DefinitionKind.target?_mapContents] at hy
  rcases hy with hy | hy
  · obtain ⟨content', hmem, hy⟩ := DefinitionKind.mem_targets.1 hy
    obtain ⟨_, -, rfl⟩ := DefinitionKind.mem_contents_mapContents.1 hmem
    refine Or.inr ?_
    rw [Has, routeFootnotes, definitions_modifyFootnotes]
    exact hl y hy
  · exact Or.inl (DefinitionKind.mem_links.2 (Or.inr hy))

end

/-- A part reference gets a target that is there. -/
theorem staysLinked_setTarget {d : Definition} {key : String} {target : DefinitionId}
    (hl : c.lookup? key d.document = some target) :
    StaysLinked c ((c.addReference target id).setTarget id target) := by
  intro hc
  have huse : StaysLinked c (c.addReference target id) :=
    .of_core_eq (c.core_addReference target id)
  refine composes_staysLinked.trans huse ?_ hc
  rw [setTarget_eq]
  refine .modifyDefinition (fun _ => rfl) fun {d'} _ y hy => ?_
  rcases hk : d'.kind with body | content | content | reference | _ | _ | _
  case partReference =>
    rw [hk] at hy
    rcases DefinitionKind.mem_links.1 hy with hy | hy | hy
    · cases hy
    · cases hy
    · cases hy
      rw [Has, Context.addReference, modifyDefinition, Array.size_modify]
      exact Or.inr (hc.lookup? hl)
  all_goals exact Or.inl (by rwa [hk] at hy)

/-- The command pass of a definition leaves everything linked, however it ends. -/
theorem staysLinked_handleCommands (n : Nat) (id : DefinitionId) :
    (Engine.handleCommands n id).Moves StaysLinked :=
  Engine.handleCommands_moves composes_staysLinked
    (fun {c c₁} h => composes_staysLinked.trans (.of_core_eq (c.core_atDepth _))
      (composes_staysLinked.trans h (.of_core_eq (c₁.core_atDepth _))))
    (fun _ _ _ hl => staysLinked_setTarget hl)
    (fun _ hh _ _ _ _ _ _ hd _ h => staysLinked_resolveContent hh hd h) n id

/-- The font pass of a definition leaves everything linked, however it ends. -/
theorem staysLinked_handleFonts (n : Nat) (id : DefinitionId) :
    (Engine.handleFonts n id).Moves StaysLinked :=
  fun _ _ _ h => .of_converts (converts_handleFonts n id _ _ _ h)

/-- **In a session everything is linked.**  Whatever is added, set and resolved, in any order,
    keys, parts, targets and commands lead to definitions that exist. -/
theorem Session.isLinked {settings : Settings} {events : List Event}
    (h : Session (.new settings) events c) : c.IsLinked := by
  induction h with
  | start => exact isLinked_new settings
  | edit _ he ih => exact (Edit.staysLinked he ih).1
  | call _ hends ih =>
    exact (hends.moves composes_staysLinked staysLinked_handleCommands staysLinked_handleFonts ih).1

end Rubric
