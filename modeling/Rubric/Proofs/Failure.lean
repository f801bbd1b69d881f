/-
  Rubric — the text of a node whose commands fail.

  A node may come up again while its own commands are executed, and what they do
  may have changed by then: footnotes have other numbers, truth values are there.

  * `Context.content? id`: the text of a stanza or a paragraph;
  * `Context.HandledWithin`: on the way between two contexts a pass of the node
    has ended with a value, and left the node the text it has in the end;
  * `Context.Retains`: the node has the text it had, or one left in this way;
    `retains_handleCommands`: after any pass of another node this is so;
  * **`content_of_failure`**: when the commands of a node fail, its text is as it
    was, unless a pass of the node that was nested in the failing one has handled
    it;
  * **`text_of_reentered_failure`**: and this does happen.
-/
import Rubric.Proofs.Frame

namespace Rubric

open Context

variable {c c' c₁ c₂ : Context} {id x : DefinitionId} {content : Content}

/-! ## Texts of nodes -/

/-- The text of a stanza or a paragraph. -/
def DefinitionKind.text? : DefinitionKind → Option Content
  | .stanza content | .paragraph content => some content
  | .section _ | .partReference _ | .boolean _ | .integer _ | .multilingual _ => none

theorem DefinitionKind.contents_of_text? {kind : DefinitionKind} (h : kind.text? = some content) :
    kind.contents = [content] ∧ kind.children = [] := by
  cases kind <;> simp [text?] at h
  all_goals
    subst h
    exact ⟨rfl, rfl⟩

/-- The text of a node that has advanced has advanced. -/
theorem DefinitionKind.Advances.text? {kind kind' : DefinitionKind} (h : kind.Advances kind')
    (ht : kind.text? = some content) :
    ∃ content', kind'.text? = some content' ∧ content.Advances content' := by
  cases h with
  | @contents _ f hf =>
    refine ⟨f content, ?_, hf content (by simp [(contents_of_text? ht).1])⟩
    cases kind <;> simp_all [DefinitionKind.text?, mapContents]
  | target => cases ht

namespace Context

/-- The text of a stanza or a paragraph of the context. -/
def content? (c : Context) (id : DefinitionId) : Option Content :=
  (c.definition? id).bind fun d => d.kind.text?

theorem content?_eq_some : c.content? id = some content ↔
    ∃ d, c.definition? id = some d ∧ d.kind.text? = some content := by
  rw [content?, Option.bind_eq_some_iff]

theorem content?_of_core_eq (h : c'.core = c.core) (id : DefinitionId) :
    c'.content? id = c.content? id := by
  have hcore : ∀ c : Context, c.core.content? id = c.content? id := by
    intro c
    rw [content?, content?, definition?_core]
    cases c.definition? id <;> rfl
  rw [← hcore c', h, hcore]

/-- A change of another node. -/
theorem content?_modifyDefinition (c : Context) {f : Definition → Definition} (h : x ≠ id) :
    (c.modifyDefinition x f).content? id = c.content? id := by
  rw [content?, content?, definition?_modifyDefinition, if_neg h]

/-- A change of the text. -/
theorem content?_modifyContent (h : c.content? id = some content) {f : Content → Content} :
    (c.modifyContent id f).content? id = some (f content) := by
  obtain ⟨d, hd, ht⟩ := content?_eq_some.1 h
  rw [modifyContent_eq, content?, definition?_modifyDefinition, if_pos rfl, hd]
  rcases hk : d.kind with _ | _ | _ | _ | _ | _ | _ <;> rw [hk] at ht
  case stanza | paragraph => cases ht; simp [hk]; rfl
  all_goals cases ht

theorem content?_setTarget (c : Context) (x target : DefinitionId) :
    (c.setTarget x target).content? id = c.content? id := by
  by_cases h : x = id
  · subst h
    rw [setTarget_eq, content?, content?, definition?_modifyDefinition, if_pos rfl]
    rcases c.definition? x with _ | d
    · rfl
    · simp only [Option.map_some, Option.bind_some]
      cases d.kind <;> rfl
  · exact content?_modifyDefinition c h

/-- The text of a node in an extension has advanced. -/
theorem Extends.content? (h : Extends c c') (hcontent : c.content? id = some content) :
    ∃ content', c'.content? id = some content' ∧ content.Advances content' := by
  obtain ⟨d, hd, ht⟩ := content?_eq_some.1 hcontent
  obtain ⟨references, kind, hd', -, hk⟩ := h.old hd
  obtain ⟨content', ht', hadvances⟩ := hk.text? ht
  exact ⟨content', content?_eq_some.2 ⟨_, hd', ht'⟩, hadvances⟩

theorem Extends.atDepth (h : Extends c c') (depth : Nat) :
    Extends (c.atDepth depth) (c'.atDepth depth) :=
  { h with depth := rfl }

/-! ## Passes in between -/

/-- On the way between the contexts, at the same depth or deeper, a pass of the node has found the
    text as it was, ended with a value, and left the text that the node has in the end. -/
def HandledWithin (id : DefinitionId) (content : Content) (c c' : Context) : Prop :=
  ∃ n c₁ c₂, c.depth ≤ c₁.depth ∧ Extends (c.atDepth c₁.depth) c₁ ∧
    c₁.content? id = some content ∧ (Engine.handleCommands n id).Gives c₁ (.ok ()) c₂ ∧
    c'.content? id = c₂.content? id

/-- The second context extends the first, and the node has the text it had, or one that a pass
    of the node in between has left. -/
structure Retains (id : DefinitionId) (c c' : Context) : Prop where
  toExtends : Extends c c'
  text : ∀ content, c.content? id = some content →
    c'.content? id = some content ∨ HandledWithin id content c c'

end Context

namespace Engine

variable {handle : DefinitionId → Engine Unit} {r : Except Error Unit}

/-- The command pass of a stanza or a paragraph is that of its text. -/
theorem gives_commandPass_of_content? (hcontent : c.content? id = some content)
    (h : (commandPass handle id).Gives c r c') :
    (resolveContent handle id content).Gives c r c' := by
  rw [commandPass, gives_definition_bind] at h
  obtain ⟨d, hd, h⟩ := h
  obtain ⟨d', hd', ht⟩ := content?_eq_some.1 hcontent
  cases hd'.symm.trans hd
  rcases hk : d.kind with _ | _ | _ | _ | _ | _ | _ <;> rw [hk] at h ht
  case stanza | paragraph => cases ht; exact h
  all_goals cases ht

/-- A pass of a stanza or a paragraph is refused at the limit; otherwise it is that of its text,
    one level deeper. -/
theorem gives_handleCommands_of_content? {n : Nat} (hcontent : c.content? id = some content)
    (h : (handleCommands (n + 1) id).Gives c r c') :
    (∃ limit, c.settings.depthLimit = some limit ∧ limit ≤ c.depth ∧ (∃ e, r = .error e) ∧
        c' = c) ∨
      ∃ r₁ c₁, (resolveContent (handleCommands n) id content).Gives
          (c.atDepth (c.depth + 1)) r₁ c₁ ∧
        (r = .ok () ↔ r₁ = .ok ()) ∧ c' = c₁.atDepth (c₁.depth - 1) := by
  rw [handleCommands, gives_definition_bind] at h
  obtain ⟨d, -, h⟩ := h
  rcases gives_nested h with ⟨limit, hlimit, hle, hr, rfl⟩ | ⟨r₁, c₁, hpass, rfl, rfl⟩
  · exact Or.inl ⟨limit, hlimit, hle, ⟨_, hr⟩, rfl⟩
  · exact Or.inr ⟨r₁, c₁, gives_commandPass_of_content? hcontent hpass, mapError_eq_ok, rfl⟩

/-- A pass of a stanza or a paragraph that ends with a value leaves its text handled. -/
theorem isHandled_of_handleCommands {n : Nat} (hcontent : c.content? id = some content)
    (h : (handleCommands n id).Gives c (.ok ()) c') :
    ∃ content', c'.content? id = some content' ∧ content'.IsHandled := by
  rcases n with _ | n
  · exact (gives_endless.1 h).elim
  rcases gives_handleCommands_of_content? hcontent h with
    ⟨_, -, -, ⟨e, he⟩, -⟩ | ⟨r₁, c₁, h, hr, rfl⟩
  · cases he
  cases hr.1 rfl
  rcases gives_resolveContent h with
    ⟨hhandled, -, rfl⟩ | ⟨-, r₁, c₂, hsource, ⟨e, -, he, -⟩ | ⟨l, -, -, rfl⟩⟩
  · exact ⟨content, hcontent, hhandled⟩
  · cases he
  · -- whatever has become of the text by then, the pass puts its own in the place
    have hextends : Extends _ c₂ :=
      extends_resolveSource (extends_handleCommands n) id content.source _ _ _ hsource
    obtain ⟨content₂, hcontent₂, -⟩ := hextends.content? hcontent
    exact ⟨content₂.resolveCommands l, content?_modifyContent hcontent₂,
      content₂.isHandled_resolveCommands l⟩

end Engine

namespace Context

theorem Retains.of_content?_eq (h : Extends c c') (hcontent : c'.content? id = c.content? id) :
    Retains id c c' :=
  ⟨h, fun _ hc => Or.inl (hcontent.trans hc)⟩

/-- A change that leaves the text of the node. -/
theorem Retains.then (h : Retains id c c₁) (hextends : Extends c c')
    (hcontent : c'.content? id = c₁.content? id) : Retains id c c' := by
  refine ⟨hextends, fun content hc => ?_⟩
  rcases h.text content hc with h | ⟨n, c₂, c₃, hle, hext, hc₂, hgives, hc₃⟩
  · exact Or.inl (hcontent.trans h)
  · exact Or.inr ⟨n, c₂, c₃, hle, hext, hc₂, hgives, hcontent.trans hc₃⟩

theorem Retains.refl (c : Context) : Retains id c c :=
  .of_content?_eq (.refl c) rfl

theorem Retains.trans (h : Retains id c c₁) (h' : Retains id c₁ c₂) : Retains id c c₂ := by
  refine ⟨h.toExtends.trans h'.toExtends, fun content hc => ?_⟩
  rcases h.text content hc with hc₁ | ⟨n, c₃, c₄, hle, hext, hc₃, hgives, hc₄⟩
  · rcases h'.text content hc₁ with hc₂ | ⟨n, c₃, c₄, hle, hext, hc₃, hgives, hc₄⟩
    · exact Or.inl hc₂
    · have hdepth : c₁.depth = c.depth := h.toExtends.depth
      exact Or.inr ⟨n, c₃, c₄, by omega, (h.toExtends.atDepth _).trans hext, hc₃, hgives, hc₄⟩
  · -- what is handled stays for good
    obtain ⟨content₄, hc₄', hhandled⟩ := Engine.isHandled_of_handleCommands hc₃ hgives
    obtain ⟨content₂, hc₂, hadvances⟩ := h'.toExtends.content? (hc₄.trans hc₄')
    rw [hadvances.eq_of_isHandled hhandled] at hc₂
    exact Or.inr ⟨n, c₃, c₄, hle, hext, hc₃, hgives, hc₂.trans hc₄'.symm⟩

/-- Commands leave the texts of nodes. -/
theorem permits_retains (id : DefinitionId) : Permits (fun _ => True) (Retains id) where
  refl := .refl
  trans h h' := h.trans h'
  warn c warnings :=
    .of_content?_eq (permits_extends.warn c warnings) (content?_of_core_eq (c.core_warnAll _) id)
  reference c definition user :=
    .of_content?_eq (permits_extends.reference c definition user)
      (content?_of_core_eq (c.core_addReference definition user) id)
  number h c document :=
    .of_content?_eq (permits_extends.number h c document)
      (content?_of_core_eq (c.core_modifyFootnotes document _) id)
  boolean h c value := by
    refine ⟨permits_extends.boolean h c value, fun content hc => Or.inl ?_⟩
    obtain ⟨d, hd, ht⟩ := content?_eq_some.1 hc
    exact content?_eq_some.2 ⟨d, definition?_addDefinition_of_some hd, ht⟩

end Context

section
variable {handle : DefinitionId → Engine Unit} (hh : ∀ x, (handle x).Moves (Retains id))
include hh

theorem retains_resolveSource (owner : DefinitionId) (source : String) :
    (Engine.resolveSource handle owner source).Moves (Retains id) := by
  refine Engine.resolveSource_moves (permits_retains id) (fun c document notes => ?_) hh _ source
  exact .of_content?_eq (.routeFootnotes c document notes)
    (content?_of_core_eq (c.core_modifyFootnotes document _) id)

/-- The pass of another node. -/
theorem retains_commandPass (hne : x ≠ id) : (Engine.commandPass handle x).Moves (Retains id) := by
  have hR := (permits_retains id).toComposes
  intro c r c' h
  obtain ⟨d, hd, hpass⟩ := Engine.gives_commandPass h
  cases hpass with
  | @parts r₁ r₂ c₁ _ _ htext hparts =>
    have htext : Retains id c c₁ := by
      rcases htext with ⟨-, -, rfl⟩ | ⟨content, hmem, hcontent⟩
      · exact .refl _
      refine Engine.resolveContent_moves (permits_retains id) hh hd
        (fun {_ _ l notes c₂} hunparsed _ _ hretains => ?_) hcontent
      refine hretains.then (hretains.toExtends.handle hd hmem hunparsed notes l) ?_
      exact (content?_modifyDefinition _ hne).trans
        (content?_of_core_eq (c₂.core_modifyFootnotes d.document _) id)
    refine htext.trans (Engine.Moves.runAll hR (fun y hy => ?_) _ _ _ hparts)
    obtain ⟨child, -, rfl⟩ := List.mem_map.1 hy
    exact hh child
  | target _ _ hgives => exact hh _ _ _ _ hgives
  | @found reference target _ _ hk hnone _ hgives =>
    refine Retains.trans ?_ (hh _ _ _ _ hgives)
    refine .of_content?_eq (.setTarget hd hk hnone target) ?_
    exact (content?_setTarget _ x target).trans
      (content?_of_core_eq (c.core_addReference target x) id)
  | missing => exact .refl _

end

/-- A pass one level deeper, seen from the level it began at. -/
theorem Context.Retains.leave (h : Retains id (c.atDepth (c.depth + 1)) c₁) :
    Retains id c (c₁.atDepth (c₁.depth - 1)) := by
  refine ⟨h.toExtends.leave, fun content hc => ?_⟩
  rcases h.text content hc with hc₁ | ⟨n, c₂, c₃, hle, hext, hc₂, hgives, hc₃⟩
  · exact Or.inl hc₁
  · exact Or.inr ⟨n, c₂, c₃, Nat.le_trans (Nat.le_succ _) hle, hext, hc₂, hgives, hc₃⟩

/-- Until its text is handled by a pass of its own, a node retains it. -/
theorem retains_handleCommands (n : Nat) (x : DefinitionId) :
    (Engine.handleCommands n x).Moves (Retains id) := by
  induction n generalizing x with
  | zero =>
    intro c r c' h
    exact (Engine.gives_endless.1 h).elim
  | succ n ih =>
    intro c r c' h
    have hextends := extends_handleCommands _ _ _ _ _ h
    by_cases he : x = id
    · subst he
      refine ⟨hextends, fun content hcontent => ?_⟩
      rcases r with e | ⟨⟨⟩⟩
      · rcases Engine.gives_handleCommands_of_content? hcontent h with
          ⟨_, -, -, -, rfl⟩ | ⟨r₁, c₁, hpass, hr, rfl⟩
        · exact Or.inl hcontent
        rcases Engine.gives_resolveContent hpass with
          ⟨-, rfl, -⟩ | ⟨-, _, _, hsource, ⟨e, -, -, rfl⟩ | ⟨_, -, rfl, -⟩⟩
        · cases hr.2 rfl
        · exact ((retains_resolveSource ih _ _ _ _ _ hsource).leave).text content hcontent
        · cases hr.2 rfl
      · exact Or.inr ⟨_, c, c', Nat.le_refl _, .refl c, hcontent, h, rfl⟩
    · rw [Engine.handleCommands, Engine.gives_definition_bind] at h
      obtain ⟨d, -, h⟩ := h
      rcases Engine.gives_nested h with ⟨limit, -, -, -, rfl⟩ | ⟨r₁, c₁, hpass, -, rfl⟩
      · exact .refl _
      · exact (retains_commandPass ih he _ _ _ hpass).leave

/-- **A node that fails keeps its text, or a pass of its own has handled it.**  If the call for
    the commands of a stanza or a paragraph fails, the text is as it was, and unread unless the
    call was refused at the depth limit; or the text was unread, and while its commands were
    executed a deeper pass of the same node found it so, ended with a value, and left the text
    that the node has now. -/
theorem content_of_failure {e : Error} (hcontent : c.content? id = some content)
    (h : (Call.commands id).Ends c (.error e) c') :
    c'.content? id = some content ∧ (content.stage = .unparsed ∨
        ∃ limit, c.settings.depthLimit = some limit ∧ limit ≤ c.depth ∧ c' = c) ∨
      content.stage = .unparsed ∧ HandledWithin id content (c.atDepth (c.depth + 1)) c' := by
  obtain ⟨n, h⟩ := h
  rcases n with _ | n
  · exact (Engine.gives_endless.1 h).elim
  rcases Engine.gives_handleCommands_of_content? hcontent h with
    ⟨limit, hlimit, hle, -, rfl⟩ | ⟨r₁, c₁, hpass, hr, rfl⟩
  · exact Or.inl ⟨hcontent, Or.inr ⟨limit, hlimit, hle, rfl⟩⟩
  rcases Engine.gives_resolveContent hpass with
    ⟨-, rfl, -⟩ | ⟨hstage, _, _, hsource, ⟨e, -, -, rfl⟩ | ⟨_, -, rfl, -⟩⟩
  · cases hr.2 rfl
  · have hretains : Retains id (c.atDepth (c.depth + 1)) c₁ :=
      retains_resolveSource (retains_handleCommands n) _ _ _ _ _ hsource
    rcases hretains.text content hcontent with hc₁ | hwithin
    · exact Or.inl ⟨hc₁, Or.inl hstage⟩
    · exact Or.inr ⟨hstage, hwithin⟩
  · cases hr.2 rfl

/-- A stanza that twice inserts what the mark of a new footnote names.  It is itself what the
    first mark names; the second and the third one name values. -/
def selfNaming : List Edit :=
  [.addDefinition
      { key := some "[1]"
        kind := .stanza
          (.ofSource "\\def\x7b\\footnote\x7bx\x7d\x7d\\def\x7b\\footnote\x7by\x7d\x7d") } none,
    .addDefinition { key := some "[2]", kind := .integer 2 } none,
    .addDefinition { key := some "[3]", kind := .integer 3 } none]

/-- The nested pass ends with the values two and three, and the outer one finds nothing for the
    fourth mark. -/
theorem content_of_failure_of_selfNaming :
    ∃ c c' : Context, ∃ content e, c.content? ⟨0⟩ = some content ∧
      (Call.commands ⟨0⟩).Ends c (.error e) c' ∧ c'.text? ⟨0⟩ = some "23" ∧
      (c'.content? ⟨0⟩ = some content ∧ (content.stage = .unparsed ∨
          ∃ limit, c.settings.depthLimit = some limit ∧ limit ≤ c.depth ∧ c' = c) ∨
        content.stage = .unparsed ∧ HandledWithin ⟨0⟩ content (c.atDepth (c.depth + 1)) c') := by
  let c := selfNaming.foldl Edit.apply (.new {})
  obtain ⟨e, h⟩ : ∃ e, (Call.commands ⟨0⟩).Ends c (.error e) ((Call.commands ⟨0⟩).run 5 c) :=
    Call.ends_run_error (by decide +kernel)
  exact ⟨c, _, _, e, rfl, h, by decide +kernel, content_of_failure rfl h⟩

/-- **A node that fails need not keep its text**, even in a context that is only built. -/
theorem text_of_reentered_failure :
    ∃ c c' : Context, ∃ e, c.IsBuilt ∧ (Call.commands ⟨0⟩).Ends c (.error e) c' ∧
      (∃ content ∈ c.content? ⟨0⟩, ¬ content.IsHandled) ∧
      ∃ content ∈ c'.content? ⟨0⟩, content.IsHandled := by
  let c := selfNaming.foldl Edit.apply (.new {})
  obtain ⟨e, h⟩ : ∃ e, (Call.commands ⟨0⟩).Ends c (.error e) ((Call.commands ⟨0⟩).run 5 c) :=
    Call.ends_run_error (by decide +kernel)
  have hbuilt : c.IsBuilt := (Context.isBuilt_new {}).edits (by decide +kernel)
  exact ⟨c, _, e, hbuilt, h, by decide +kernel, by decide +kernel⟩

end Rubric
