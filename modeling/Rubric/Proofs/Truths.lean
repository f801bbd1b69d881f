/-
  Rubric — truth values that are shared.

  The commands for the truth values insert one definition each, which the first
  of them makes and the later ones find.  What they find depends on the scopes of
  the document and of all documents, to which both edits and commands add.

  * `Edit.SparesTruths`: an edit adds nothing under the keys of the truth values,
    unless it is a truth value of a document;
  * `Context.Course c₀ c`: from `c₀` a run comes to `c`, which may be in the
    middle of a call, where a command is about to be executed;
  * `Context.SharesTruths`: under the keys of the truth values there are truth
    values only, and of the global ones at most one under each; this is kept by
    edits that spare them, and by passes (`sharesTruths_handleCommands`);
  * **`booleans_shared`**: of each truth value at most one definition is made.
-/
import Rubric.Proofs.Keys

namespace Rubric

open Context Text

variable {c c₀ c' c₁ c₂ : Context} {id x y s t : DefinitionId} {document : Option DocumentId}
  {value : Bool}

/-! ## Truth values and their keys -/

/-- The key of the definition of a truth value. -/
def truthKey (value : Bool) : String :=
  if value then "True" else "False"

namespace DefinitionKind

/-- A truth value. -/
def IsBoolean : DefinitionKind → Prop
  | .boolean _ => True
  | _ => False

instance : DecidablePred IsBoolean
  | .boolean _ => isTrue trivial
  | .section _ | .stanza _ | .paragraph _ | .partReference _ | .integer _ | .multilingual _ =>
    isFalse False.elim

theorem isBoolean_iff {kind : DefinitionKind} :
    kind.IsBoolean ↔ ∃ value, kind = .boolean value := by
  cases kind <;> simp [IsBoolean]

end DefinitionKind

namespace Invocation

variable {call : Invocation} {d : Definition}

/-- The truth value that the command stands for. -/
def truth (call : Invocation) : Bool :=
  eqIgnoringAsciiCase call.name "true"

/-- The command finds a truth value under its key. -/
theorem gives_insertBoolean_of_found
    (hx : c.lookup? (truthKey call.truth) call.scope.document = some t)
    (hd : c.definition? t = some d) (hk : d.kind.IsBoolean) :
    call.insertBoolean.Gives c (.ok (.definition t)) (c.addReference t call.scope.owner) := by
  obtain ⟨value, hk⟩ := DefinitionKind.isBoolean_iff.1 hk
  have hshared : (insertBoolean.shared (truthKey call.truth) call.truth (some t)).Gives c
      (.ok t) c := by
    rw [insertBoolean.shared, Engine.gives_get_bind]
    simp [hd, hk]
  rw [insertBoolean, gives_lookup?_bind]
  refine Engine.gives_bind_ok.2 ⟨t, c, ?_, ?_⟩
  · exact hx ▸ hshared
  · rw [gives_use_bind, Engine.gives_pure]
    exact ⟨rfl, rfl⟩

/-- The command finds nothing and makes a truth value. -/
theorem gives_insertBoolean_of_missing
    (hx : c.lookup? (truthKey call.truth) call.scope.document = none) :
    call.insertBoolean.Gives c (.ok (.definition ⟨c.definitions.size⟩))
      ((c.addBoolean none (truthKey call.truth) call.truth).2.addReference ⟨c.definitions.size⟩
        call.scope.owner) := by
  have hshared : (insertBoolean.shared (truthKey call.truth) call.truth none).Gives c
      (.ok ⟨c.definitions.size⟩) (c.addBoolean none (truthKey call.truth) call.truth).2 := by
    rw [insertBoolean.shared, Engine.gives_get_bind]
    exact Engine.gives_modifyGet.2 ⟨rfl, rfl⟩
  rw [insertBoolean, gives_lookup?_bind]
  refine Engine.gives_bind_ok.2
    ⟨⟨c.definitions.size⟩, (c.addBoolean none (truthKey call.truth) call.truth).2, ?_, ?_⟩
  · exact hx ▸ hshared
  · rw [gives_use_bind, Engine.gives_pure]
    exact ⟨rfl, rfl⟩

end Invocation

/-! ## Edits -/

namespace Edit

/-- What the edit adds under the keys of the truth values, if anything, are truth values of
    documents. -/
def SparesTruths (c : Context) (e : Edit) : Prop :=
  ∀ d ∈ (e.apply c).definitions.toList.drop c.definitions.size, ∀ value,
    d.key = some (truthKey value) → d.document.isSome ∧ d.kind.IsBoolean

instance (c : Context) (e : Edit) : Decidable (e.SparesTruths c) :=
  inferInstanceAs (Decidable (∀ d ∈ (e.apply c).definitions.toList.drop c.definitions.size,
    ∀ value, d.key = some (truthKey value) → d.document.isSome ∧ d.kind.IsBoolean))

end Edit

namespace Context

/-- A definition is changed, and none is added; of truth values none is changed in its kind. -/
theorem isBoolean_modifyDefinition {d : Definition} {f : Definition → Definition}
    (hf : ∀ d, c.definition? id = some d → d.kind.IsBoolean → (f d).kind.IsBoolean)
    (hd : c.definition? x = some d) (hk : d.kind.IsBoolean) :
    ∃ d', (c.modifyDefinition id f).definition? x = some d' ∧ d'.kind.IsBoolean := by
  rw [definition?_modifyDefinition, hd]
  split
  · rename_i he
    exact ⟨f d, rfl, hf d (he ▸ hd) hk⟩
  · exact ⟨d, rfl, hk⟩

theorem isBoolean_addChild (parent : DefinitionId) (key : Option String) (kind : DefinitionKind)
    {d : Definition} (hd : c.definition? x = some d) (hk : d.kind.IsBoolean) :
    ∃ d', (c.addChild parent key kind).2.definition? x = some d' ∧ d'.kind.IsBoolean := by
  have hadd : (c.addDefinition { key, parent := some parent, kind }
      ((c.definition? parent).bind Definition.document)).2.definition? x = some d :=
    definition?_addDefinition_of_some hd
  unfold Context.addChild
  dsimp only
  split
  · rename_i body hbody
    obtain ⟨d', hd', hbody⟩ := Option.map_eq_some_iff.1 hbody
    refine isBoolean_modifyDefinition (fun d₁ hd₁ hk₁ => ?_) hadd hk
    cases hd'.symm.trans hd₁
    rw [hbody] at hk₁
    exact hk₁.elim
  · exact ⟨d, hadd, hk⟩
  · exact ⟨d, hadd, hk⟩

theorem isBoolean_setSourceText (id : DefinitionId) (source : String) {d : Definition}
    (hd : c.definition? x = some d) (hk : d.kind.IsBoolean) :
    ∃ d', (c.setSourceText id source).definition? x = some d' ∧ d'.kind.IsBoolean := by
  unfold Context.setSourceText
  split
  case h_4 => exact ⟨d, hd, hk⟩
  case h_5 => exact ⟨d, hd, hk⟩
  all_goals
    rename_i hkind
    obtain ⟨d', hd', hkind⟩ := Option.map_eq_some_iff.1 hkind
    refine isBoolean_modifyDefinition (fun d₁ hd₁ hk₁ => ?_) hd hk
    cases hd'.symm.trans hd₁
    rw [hkind] at hk₁
    exact hk₁.elim

end Context

/-- No edit makes anything else of a truth value. -/
theorem Edit.isBoolean_apply (e : Edit) {d : Definition} (hd : c.definition? x = some d)
    (hk : d.kind.IsBoolean) :
    ∃ d', (e.apply c).definition? x = some d' ∧ d'.kind.IsBoolean := by
  cases e with
  | addSection parent key | addStanza parent key | addParagraph parent key
  | addPartReference parent key => exact isBoolean_addChild parent key _ hd hk
  | addDefinition => exact ⟨d, definition?_addDefinition_of_some hd, hk⟩
  | addVersion document language font =>
    have hadd : (c.addDefinition { language := some language, font, kind := .section {} }
        (some document)).2.definition? x = some d := definition?_addDefinition_of_some hd
    exact ⟨d, hadd, hk⟩
  | setSourceText id source => exact isBoolean_setSourceText id source hd hk
  | setLanguage | setFont | addReference =>
    exact isBoolean_modifyDefinition (fun _ _ hk => hk) hd hk
  | addDocument | setAuthor | setCommands | setFonts | registerAnalyzer | setSettings =>
    exact ⟨d, hd, hk⟩

/-! ## Contexts that share truth values -/

namespace Context

/-- Under the keys of the truth values there are truth values only, and of the global ones there
    is at most one under each. -/
structure SharesTruths (c : Context) : Prop where
  lists : c.HasDocuments
  indexed : c.IsIndexed
  boolean : ∀ {x d value}, c.definition? x = some d → d.key = some (truthKey value) →
    d.kind.IsBoolean
  unique : ∀ {x y value}, c.IsUnder none (truthKey value) x → c.IsUnder none (truthKey value) y →
    x = y

/-- Of the definitions that the document has under the key of the truth value, this one was added
    last, and it is a truth value. -/
structure IsOwnTruth (c : Context) (document : Option DocumentId) (value : Bool)
    (t : DefinitionId) : Prop where
  isSome : document.isSome
  latest : c.IsLatest document (truthKey value) t
  boolean : ∃ d, c.definition? t = some d ∧ d.kind.IsBoolean

namespace SharesTruths

variable (h : c.SharesTruths)
include h

/-- Definitions keep their keys, documents and truth values, and what is added under the keys of
    the truth values are truth values of documents. -/
theorem of_recalls (hr : Recalls c c') (hindexed : c'.IsIndexed)
    (hlists : c'.HasDocuments)
    (hold : ∀ {x d}, c.definition? x = some d → d.kind.IsBoolean →
      ∃ d', c'.definition? x = some d' ∧ d'.kind.IsBoolean)
    (hnew : ∀ {x d}, c.definition? x = none → c'.definition? x = some d → ∀ value,
      d.key = some (truthKey value) → d.document.isSome ∧ d.kind.IsBoolean) :
    c'.SharesTruths := by
  have hunder : ∀ {x value}, c'.IsUnder none (truthKey value) x →
      c.IsUnder none (truthKey value) x := by
    intro x value hx
    rcases hd : c.definition? x with _ | d
    · obtain ⟨d', hd', hkey, hdocument⟩ := hx
      obtain ⟨hsome, -⟩ := hnew hd hd' value hkey
      rw [hdocument] at hsome
      cases hsome
    · exact (hr.isUnder_iff (by rw [hd]; rfl)).1 hx
  refine ⟨hlists, hindexed, fun {x d' value} hd' hkey' => ?_,
    fun hx hy => h.unique (hunder hx) (hunder hy)⟩
  rcases hd : c.definition? x with _ | d
  · exact (hnew hd hd' value hkey').2
  · obtain ⟨d₁, hd₁, hkey, -⟩ := hr x d hd
    cases hd'.symm.trans hd₁
    obtain ⟨d₂, hd₂, hk⟩ := hold hd (h.boolean hd (hkey ▸ hkey'))
    cases hd'.symm.trans hd₂
    exact hk

/-- A change that leaves the definitions, the documents and their keys. -/
theorem of_definitions (hdefinitions : c'.definitions = c.definitions)
    (hkeys : ∀ d, c'.keysOf d = c.keysOf d) (hlists : ∀ {d}, c.HasList d → c'.HasList d) :
    c'.SharesTruths := by
  have hd := definition?_of_definitions_eq hdefinitions
  refine h.of_recalls (.of_definitions hdefinitions)
    (h.indexed.of_recalls (.of_definitions hdefinitions) (by rw [hdefinitions]) hkeys)
    (fun _ _ hx => hlists (h.lists (by rwa [← hd]))) (fun hx hk => ⟨_, by rwa [hd], hk⟩)
    fun hnone hx => ?_
  rw [hd] at hx
  cases hnone.symm.trans hx

theorem modifyDefinition {f : Definition → Definition} (hkey : ∀ d, (f d).key = d.key)
    (hdocument : ∀ d, (f d).document = d.document)
    (href : ∀ d, d.references <+: (f d).references)
    (hkind : ∀ d, d.kind.IsBoolean → (f d).kind.IsBoolean) :
    (c.modifyDefinition id f).SharesTruths := by
  have hold : ∀ {x d'}, (c.modifyDefinition id f).definition? x = some d' →
      ∃ d, c.definition? x = some d ∧ d'.document = d.document := by
    intro x d' hx
    rcases of_definition?_modifyDefinition hx with ⟨-, hx⟩ | ⟨rfl, d, hd, rfl⟩
    · exact ⟨d', hx, rfl⟩
    · exact ⟨d, hd, hdocument d⟩
  refine h.of_recalls (.modifyDefinition c hkey hdocument href)
    (h.indexed.modifyDefinition hkey hdocument href) (fun _ _ hx => ?_)
    (isBoolean_modifyDefinition fun d _ => hkind d) fun hnone hx => ?_
  · obtain ⟨d, hd, hdocument⟩ := hold hx
    rw [hdocument]
    exact h.lists hd
  · obtain ⟨d, hd, -⟩ := hold hx
    cases hnone.symm.trans hd

theorem atDepth (depth : Nat) : (c.atDepth depth).SharesTruths :=
  h.of_definitions rfl (fun d => by cases d <;> rfl) fun hd => hd

theorem warnAll (warnings : List Warning) : (c.warnAll warnings).SharesTruths :=
  h.of_definitions rfl (fun d => by cases d <;> rfl) fun hd => hd

theorem addReference (definition user : DefinitionId) :
    (c.addReference definition user).SharesTruths :=
  h.modifyDefinition (fun _ => rfl) (fun _ => rfl) (fun _ => List.prefix_append _ _) fun _ hk => hk

theorem setTarget (id target : DefinitionId) : (c.setTarget id target).SharesTruths := by
  rw [setTarget_eq]
  refine h.modifyDefinition (fun _ => rfl) (fun _ => rfl) (fun _ => List.prefix_rfl) fun d hk => ?_
  rcases d with ⟨_, _, _, _, _, _, _ | _ | _ | _ | _ | _ | _⟩ <;> exact hk

theorem modifyFootnotes (document : Option DocumentId) (f : FootnoteList → FootnoteList) :
    (c.modifyFootnotes document f).SharesTruths :=
  h.of_definitions (c.definitions_modifyFootnotes document f)
    (keysOf_of_core_eq (c.core_modifyFootnotes document f)) fun hd => by
      rwa [hasList_modifyFootnotes]

theorem modifyContent (id : DefinitionId) (f : Content → Content) :
    (c.modifyContent id f).SharesTruths := by
  rw [modifyContent_eq]
  refine h.modifyDefinition (fun _ => rfl) (fun _ => rfl) (fun _ => List.prefix_rfl) fun d hk => ?_
  rcases d with ⟨_, _, _, _, _, _, _ | _ | _ | _ | _ | _ | _⟩ <;> exact hk

/-- What stands under the key of a truth value is one. -/
theorem isBoolean_of_isUnder (hx : c.IsUnder document (truthKey value) t) :
    ∃ d, c.definition? t = some d ∧ d.kind.IsBoolean := by
  obtain ⟨d, hd, hkey, -⟩ := hx
  exact ⟨d, hd, h.boolean hd hkey⟩

/-- The key of a truth value leads to the one of the document, or to a global one. -/
theorem isOwnTruth_or (hx : c.lookup? (truthKey value) document = some t) :
    c.IsOwnTruth document value t ∨ c.IsUnder none (truthKey value) t := by
  cases document with
  | none => exact Or.inr (h.indexed.lookup?_none_eq_some_iff.1 hx).under
  | some document =>
    rcases h.indexed.lookup?_some_eq_some_iff.1 hx with hlatest | ⟨-, hlatest⟩
    · exact Or.inl ⟨rfl, hlatest, h.isBoolean_of_isUnder hlatest.under⟩
    · exact Or.inr hlatest.under

theorem exists_of_lookup? (hx : c.lookup? (truthKey value) document = some t) :
    ∃ d, c.definition? t = some d ∧ d.kind.IsBoolean := by
  rcases h.isOwnTruth_or hx with hown | hglobal
  · exact hown.boolean
  · exact h.isBoolean_of_isUnder hglobal

/-- A truth value is made where none is found. -/
theorem addBoolean (hx : c.lookup? (truthKey value) document = none) :
    (c.addBoolean none (truthKey value) value).2.SharesTruths := by
  have hnone := (h.indexed.lookup?_eq_none_iff.1 hx).2
  have hold : ∀ {x d}, (c.addBoolean none (truthKey value) value).2.definition? x = some d →
      c.definition? x = some d ∨ d = { key := some (truthKey value), kind := .boolean value } :=
    fun hd => (of_definition?_addDefinition hd).imp_right And.right
  refine ⟨h.lists.addDefinition _ trivial, h.indexed.addDefinition _ trivial, fun hd hkey => ?_,
    fun {x y other} hx hy => ?_⟩
  · rcases hold hd with hd | rfl
    · exact h.boolean hd hkey
    · trivial
  · rw [Context.addBoolean, isUnder_addDefinition] at hx hy
    -- under the key of the new one there was none, and under the other key there is no new one
    rcases hx with ⟨hx, hkey, -⟩ | hx <;> rcases hy with ⟨hy, hkey', -⟩ | hy
    · cases x; cases y; cases hx; cases hy; rfl
    · rw [← Option.some.inj hkey] at hy
      exact absurd hy (hnone y)
    · rw [← Option.some.inj hkey'] at hx
      exact absurd hx (hnone x)
    · exact h.unique hx hy

end SharesTruths

theorem sharesTruths_new (settings : Settings) : (new settings).SharesTruths where
  lists := by rintro x d ⟨⟩
  indexed := isIndexed_new settings
  boolean hd := by cases hd
  unique hx := by
    obtain ⟨d, hd, -⟩ := hx
    cases hd

end Context

/-- An edit that spares the truth values leaves them shared. -/
theorem Edit.sharesTruths {e : Edit} (he : e.FindsDocument c) (hspares : e.SparesTruths c)
    (h : c.SharesTruths) : (e.apply c).SharesTruths := by
  refine h.of_recalls (e.recalls c) (Edit.staysIndexed he h.lists h.indexed) (h.lists.edit he)
    e.isBoolean_apply fun {x d} hnone hd => hspares d ?_
  have hsize : c.definitions.size ≤ x.index := Array.getElem?_eq_none_iff.1 hnone
  rw [List.mem_iff_getElem?]
  refine ⟨x.index - c.definitions.size, ?_⟩
  rw [List.getElem?_drop, Nat.add_sub_cancel' hsize, Array.getElem?_toList]
  exact hd

/-! ## Commands -/

theorem composes_sharesTruths : Engine.Composes fun c c' => c.SharesTruths → c'.SharesTruths :=
  ⟨fun _ h => h, fun h h' hc => h' (h hc)⟩

/-- What commands of other kinds do to a context leaves truth values shared. -/
theorem permits_sharesTruths :
    Permits (· ≠ .boolean) fun c c' => c.SharesTruths → c'.SharesTruths where
  toComposes := composes_sharesTruths
  warn _ warnings h := h.warnAll warnings
  reference _ definition user h := h.addReference definition user
  number _ _ document h := h.modifyFootnotes document _
  boolean hk := absurd rfl hk

namespace Invocation

variable {call : Invocation} {handle : DefinitionId → Engine Unit}

/-- The command for a truth value ends with the one it finds, or it makes the only global one. -/
theorem run_boolean (h : c.SharesTruths) (handle : DefinitionId → Engine Unit)
    (call : Invocation) (ps : List Inline) :
    (∃ t, c.lookup? (truthKey call.truth) call.scope.document = some t ∧
      (call.run handle .boolean ps).Gives c (.ok (.definition t))
        (c.addReference t call.scope.owner)) ∨
    (∀ y, ¬ c.IsUnder none (truthKey call.truth) y) ∧
      (c.addBoolean none (truthKey call.truth) call.truth).2.SharesTruths ∧
      (call.run handle .boolean ps).Gives c (.ok (.definition ⟨c.definitions.size⟩))
        ((c.addBoolean none (truthKey call.truth) call.truth).2.addReference
          ⟨c.definitions.size⟩ call.scope.owner) := by
  rcases hx : c.lookup? (truthKey call.truth) call.scope.document with _ | t
  · exact Or.inr ⟨(h.indexed.lookup?_eq_none_iff.1 hx).2, h.addBoolean hx,
      gives_insertBoolean_of_missing hx⟩
  · obtain ⟨d, hd, hk⟩ := h.exists_of_lookup? hx
    exact Or.inl ⟨t, rfl, gives_insertBoolean_of_found hx hd hk⟩

/-- Whatever a command does, truth values stay shared. -/
theorem run_sharesTruths
    (hh : ∀ id, (handle id).Moves fun c c' => c.SharesTruths → c'.SharesTruths)
    (call : Invocation) (kind : CommandKind) (ps : List Inline) :
    (call.run handle kind ps).Moves fun c c' => c.SharesTruths → c'.SharesTruths := by
  by_cases hk : kind = .boolean
  · subst hk
    intro c r c' hgives h
    rcases call.run_boolean h handle ps with ⟨t, -, hends⟩ | ⟨-, hmade, hends⟩ <;>
      obtain ⟨-, rfl⟩ := Prod.mk.inj (Option.some.inj (hends.symm.trans hgives))
    · exact h.addReference _ _
    · exact hmade.addReference _ _
  · exact call.run_moves permits_sharesTruths hh hk ps

end Invocation

/-! ## Passes -/

section
variable {handle : DefinitionId → Engine Unit}
  (hh : ∀ id, (handle id).Moves fun c c' => c.SharesTruths → c'.SharesTruths)
include hh

theorem sharesTruths_execute (scope : Scope) (tags : Tags) (i : Inline) :
    (i.execute handle scope tags).Moves fun c c' => c.SharesTruths → c'.SharesTruths :=
  Inline.execute_moves_of_run (permits_sharesTruths.permitsAt _)
    (fun _ _ kind (_ : True) ps => Invocation.run_sharesTruths hh _ kind ps) i Inline.uses_all tags

theorem sharesTruths_resolveContent {d : Definition} {content : Content} {r : Except Error Unit}
    (hd : c.definition? id = some d)
    (hends : (Engine.resolveContent handle id content).Gives c r c') (h : c.SharesTruths) :
    c'.SharesTruths :=
  Engine.resolveContent_moves_of_execute composes_sharesTruths
    (fun tags _ => Inline.executeList_moves_of (permits_sharesTruths.permitsAt _)
      (fun i _ tags => sharesTruths_execute hh _ tags i) tags)
    hd (fun _ _ _ hmoves hc => ((hmoves hc).modifyFootnotes _ _).modifyContent _ _) hends h

end

/-- The command pass of a definition leaves truth values shared, however it ends. -/
theorem sharesTruths_handleCommands (n : Nat) (id : DefinitionId) :
    (Engine.handleCommands n id).Moves fun c c' => c.SharesTruths → c'.SharesTruths :=
  Engine.handleCommands_moves composes_sharesTruths (fun h hc => (h (hc.atDepth _)).atDepth _)
    (fun _ _ _ _ hc => (hc.addReference _ _).setTarget _ _)
    (fun _ hh _ _ _ _ _ _ hd _ h => sharesTruths_resolveContent hh hd h) n id

/-- The font pass of a definition leaves truth values shared, however it ends. -/
theorem sharesTruths_handleFonts (n : Nat) (id : DefinitionId) :
    (Engine.handleFonts n id).Moves fun c c' => c.SharesTruths → c'.SharesTruths :=
  Engine.handleFonts_moves composes_sharesTruths (fun h hc => (h (hc.atDepth _)).atDepth _)
    (fun _ _ _ hmoves h hc => by
      obtain ⟨tags, d, warnings, -, -, -, rfl⟩ := Engine.gives_convertContent h
      refine SharesTruths.modifyFootnotes ?_ _ _
      rw [← modifyContent_eq]
      exact ((hmoves hc).warnAll _).modifyContent _ _) n id

/-! ## Runs -/

namespace Context

/-- From `c₀` a run comes to `c`.  It is made of edits and calls; within a call, contexts are come
    to where a pass goes a level deeper, where a node or a command uses what it has found, and
    where an inline or a text has been executed, with a value or an error. -/
inductive Course (c₀ : Context) : Context → Prop
  | start : Course c₀ c₀
  | edit {c : Context} {e : Edit} : Course c₀ c → e.FindsDocument c → e.SparesTruths c →
      Course c₀ (e.apply c)
  | call {c c' : Context} {call : Call} {r : Except Error Unit} :
      Course c₀ c → call.Ends c r c' → Course c₀ c'
  | depth {c : Context} (depth : Nat) : Course c₀ c → Course c₀ (c.atDepth depth)
  | reference {c : Context} (definition user : DefinitionId) :
      Course c₀ c → Course c₀ (c.addReference definition user)
  | target {c : Context} (id target : DefinitionId) :
      Course c₀ c → Course c₀ (c.setTarget id target)
  | inline {c c' : Context} {n : Nat} {scope : Scope} {tags : Tags} {i : Inline}
      {r : Except Error (Inline × List Footnote)} : Course c₀ c →
      (i.execute (Engine.handleCommands n) scope tags).Gives c r c' → Course c₀ c'
  | text {c c' : Context} {n : Nat} {id : DefinitionId} {d : Definition} {content : Content}
      {r : Except Error Unit} : Course c₀ c → c.definition? id = some d →
      (Engine.resolveContent (Engine.handleCommands n) id content).Gives c r c' → Course c₀ c'

namespace Course

/-- Truth values stay shared in every run. -/
theorem sharesTruths (h : Course c₀ c) (h₀ : c₀.SharesTruths) : c.SharesTruths := by
  induction h with
  | start => exact h₀
  | edit _ he hspares ih => exact Edit.sharesTruths he hspares ih
  | call _ hends ih =>
    exact hends.moves composes_sharesTruths sharesTruths_handleCommands sharesTruths_handleFonts ih
  | depth depth _ ih => exact ih.atDepth depth
  | reference definition user _ ih => exact ih.addReference definition user
  | target id target _ ih => exact ih.setTarget id target
  | inline _ hends ih =>
    exact sharesTruths_execute (sharesTruths_handleCommands _) _ _ _ _ _ _ hends ih
  | text _ hd hends ih =>
    exact sharesTruths_resolveContent (sharesTruths_handleCommands _) hd hends ih

/-- No run takes anything away. -/
theorem recalls (h : Course c₀ c) : Recalls c₀ c := by
  have hhandle : ∀ n id, (Engine.handleCommands n id).Moves Recalls := fun n id _ _ _ h =>
    .of_extends (extends_handleCommands n id _ _ _ h)
  induction h with
  | start => exact composes_recalls.refl _
  | @edit c e _ _ _ ih => exact composes_recalls.trans ih (e.recalls c)
  | call _ hends ih => exact composes_recalls.trans ih hends.recalls
  | depth _ _ ih => exact composes_recalls.trans ih (.of_definitions rfl)
  | reference _ _ _ ih =>
    exact composes_recalls.trans ih
      (.modifyDefinition _ (fun _ => rfl) (fun _ => rfl) fun _ => List.prefix_append _ _)
  | target _ _ _ ih =>
    exact composes_recalls.trans ih
      (.modifyDefinition _ (fun _ => rfl) (fun _ => rfl) fun _ => List.prefix_rfl)
  | inline _ hends ih =>
    exact composes_recalls.trans ih
      (Inline.execute_moves permits_recalls (hhandle _) _ Inline.uses_all _ _ _ _ hends)
  | text _ hd hends ih =>
    refine composes_recalls.trans ih (Engine.resolveContent_moves permits_recalls (hhandle _) hd
      (fun _ _ _ hmoves => composes_recalls.trans hmoves ?_) hends)
    rw [modifyContent_eq]
    exact composes_recalls.trans (.of_definitions (definitions_modifyFootnotes ..))
      (.modifyDefinition _ (fun _ => rfl) (fun _ => rfl) fun _ => List.prefix_rfl)

end Course

end Context

/-- **Truth values are shared.**  Edits spare them: what they add under the keys of the truth
    values are truth values of documents.  Then, in the middle of calls too, under either key
    there is at most one global definition.  Wherever a command for a truth value is executed
    later, it inserts this definition, or the truth value that its own document has under the key,
    and nothing is made; where there is no global one, it inserts the truth value of its document
    or it makes the global one. -/
theorem booleans_shared {settings : Settings} (hc : Course (.new settings) c) :
    (∀ value x y, c.IsUnder none (truthKey value) x → c.IsUnder none (truthKey value) y → x = y) ∧
    ∀ (n : Nat) (call : Invocation) (ps : List Inline),
      (∀ s, c.IsUnder none (truthKey call.truth) s → ∀ c₁, Course c c₁ → ∃ t,
        (t = s ∨ c₁.IsOwnTruth call.scope.document call.truth t) ∧
        (call.run (Engine.handleCommands n) .boolean ps).Gives c₁ (.ok (.definition t))
          (c₁.addReference t call.scope.owner)) ∧
      ((∀ s, ¬ c.IsUnder none (truthKey call.truth) s) → ∃ t c',
        (call.run (Engine.handleCommands n) .boolean ps).Gives c (.ok (.definition t))
          (c'.addReference t call.scope.owner) ∧
        (c' = c ∧ c.IsOwnTruth call.scope.document call.truth t ∨
          c' = (c.addBoolean none (truthKey call.truth) call.truth).2 ∧
            c'.IsUnder none (truthKey call.truth) t ∧ c.definition? t = none)) := by
  have h := hc.sharesTruths (sharesTruths_new settings)
  refine ⟨fun _ _ _ => h.unique, fun n call ps => ⟨fun s hs c₁ hc₁ => ?_, fun hnone => ?_⟩⟩
  · have h₁ := hc₁.sharesTruths h
    have hs₁ : c₁.IsUnder none (truthKey call.truth) s := by
      obtain ⟨d, hd, -⟩ := id hs
      exact (hc₁.recalls.isUnder_iff (by rw [hd]; rfl)).2 hs
    rcases call.run_boolean h₁ (Engine.handleCommands n) ps with ⟨t, hx, hends⟩ | ⟨hno, -⟩
    · refine ⟨t, ?_, hends⟩
      rcases h₁.isOwnTruth_or hx with hown | hglobal
      · exact Or.inr hown
      · exact Or.inl (h₁.unique hglobal hs₁)
    · exact absurd hs₁ (hno s)
  · rcases call.run_boolean h (Engine.handleCommands n) ps with ⟨t, hx, hends⟩ | ⟨-, -, hends⟩
    · rcases h.isOwnTruth_or hx with hown | hglobal
      · exact ⟨t, c, hends, Or.inl ⟨rfl, hown⟩⟩
      · exact absurd hglobal (hnone t)
    · refine ⟨_, _, hends, Or.inr ⟨rfl, ?_, ?_⟩⟩
      · rw [Context.addBoolean, isUnder_addDefinition]
        exact Or.inl ⟨rfl, rfl, rfl⟩
      · exact Array.getElem?_eq_none_iff.2 (Nat.le_refl _)

/-- One document has a truth value of its own, and a stanza of another one has made the global
    one: from now on the commands of the latter insert that. -/
theorem booleans_shared_of_two_documents :
    ∃ c : Context, Course (.new {}) c ∧ c.IsUnder none (truthKey true) ⟨2⟩ ∧
      c.lookup? (truthKey true) (some ⟨0⟩) = some ⟨0⟩ ∧
      ∀ ps, (Invocation.run (Engine.handleCommands 2) ⟨"true", ⟨⟨1⟩, some ⟨1⟩⟩, {}⟩ .boolean ps).Gives
        c (.ok (.definition ⟨2⟩)) (c.addReference ⟨2⟩ ⟨1⟩) := by
  let e₀ := Edit.addDefinition { key := some "True", kind := .boolean true } (some ⟨0⟩)
  let e₁ := Edit.addStandaloneStanza (some ⟨1⟩) none "\\true"
  let c₂ := (Edit.addDocument "e" "E").apply ((Edit.addDocument "d" "D").apply (.new {}))
  let c := (Call.commands ⟨1⟩).run 4 (e₁.apply (e₀.apply c₂))
  have hdocuments : Course (.new {}) c₂ :=
    (Course.start.edit (e := .addDocument "d" "D") trivial (by decide +kernel)).edit trivial
      (by decide +kernel)
  have hedits : Course (.new {}) (e₁.apply (e₀.apply c₂)) :=
    (hdocuments.edit (by decide +kernel) (by decide +kernel)).edit (by decide +kernel)
      (by decide +kernel)
  have hc : Course (.new {}) c := hedits.call (Call.ends_run (by decide +kernel))
  obtain ⟨d, hd, hkey, hdocument⟩ :
      ∃ d ∈ c.definition? ⟨2⟩, d.key = some (truthKey true) ∧ d.document = none := by
    decide +kernel
  have hs : c.IsUnder none (truthKey true) ⟨2⟩ := ⟨d, hd, hkey, hdocument⟩
  have hnone : ∀ d ∈ c.definitions.toList, d.key = some (truthKey true) →
      d.document ≠ some ⟨1⟩ := by
    decide +kernel
  refine ⟨c, hc, hs, by decide +kernel, fun ps => ?_⟩
  obtain ⟨t, rfl | hown, hends⟩ := ((booleans_shared hc).2 2 ⟨"true", ⟨⟨1⟩, some ⟨1⟩⟩, {}⟩ ps).1
    ⟨2⟩ hs c .start
  · exact hends
  · obtain ⟨d, hd, hkey, hdocument⟩ := hown.latest.under
    exact absurd hdocument (hnone d (Array.mem_toList_iff.2 (Array.mem_of_getElem? hd)) hkey)

/-- The document has something else under the key: then every command makes a global truth value
    of its own. -/
theorem not_shared_of_integer :
    ∃ c c' : Context, c.IsBuilt ∧ (∀ value y, ¬ c.IsUnder none (truthKey value) y) ∧
      (Call.commands ⟨1⟩).Ends c (.ok ()) c' ∧ c'.IsUnder none (truthKey true) ⟨2⟩ ∧
      c'.IsUnder none (truthKey true) ⟨3⟩ := by
  let edits := [Edit.addDocument "d" "D",
    .addDefinition { key := some "True", kind := .integer 1 } (some ⟨0⟩),
    .addStandaloneStanza (some ⟨0⟩) none "\\true\\true"]
  let c := edits.foldl Edit.apply (.new {})
  have hnone : ∀ d ∈ c.definitions.toList, d.document ≠ none := by decide +kernel
  have htwo : ∀ x ∈ [(⟨2⟩ : DefinitionId), ⟨3⟩], ∃ d ∈ ((Call.commands ⟨1⟩).run 4 c).definition? x,
      d.key = some (truthKey true) ∧ d.document = none := by
    decide +kernel
  refine ⟨c, _, (isBuilt_new {}).edits (by decide +kernel), ?_, Call.ends_run (by decide +kernel),
    htwo ⟨2⟩ (by simp), htwo ⟨3⟩ (by simp)⟩
  rintro value y ⟨d, hd, -, hdocument⟩
  exact hnone d (Array.mem_toList_iff.2 (Array.mem_of_getElem? hd)) hdocument

end Rubric
