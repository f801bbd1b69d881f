/-
  Rubric — references are complete.

  Whoever uses a definition is written down with it: the node of a command that
  stands for the definition, and the part reference that it is the target of.
  Nothing else says which texts are made of which others.

  * `used_law`: a command that stands for a definition has recorded its node there;
  * `Context.LeavesTargets`: no part reference has got a target;
  * `Context.RefersBack`: every part reference is recorded with its target, or that is
    given;
  * `Edit.Gives`: what a definition added by hand stands for already is given;
  * **`references_complete`**: whatever edits and calls lead to, all commands in texts
    and all part references are recorded that are not given, and no record is ever
    taken back.
-/
import Rubric.Proofs.Keys
import Rubric.Proofs.Nested

namespace Rubric

open Context

variable {c c' c₁ : Context} {id x t : DefinitionId} {given : DefinitionId → DefinitionId → Prop}

/-! ## Commands -/

/-- A use of a definition that exists is recorded. -/
theorem Context.mem_references_addReference {user : DefinitionId} {d : Definition}
    (hd : (c.addReference t user).definition? t = some d) :
    user ∈ (c.addReference t user).references t := by
  rw [Context.references, hd]
  rw [Context.addReference, definition?_modifyDefinition, if_pos rfl] at hd
  obtain ⟨d₀, -, rfl⟩ := Option.map_eq_some_iff.1 hd
  exact List.mem_append_right _ (List.mem_singleton_self _)

section
variable {handle : DefinitionId → Engine Unit} (hh : ∀ id, (handle id).Moves Recalls)
include hh

/-- The definition that a command stands for has the command's node among its references. -/
theorem mem_references_of_effects {call : Invocation} {kind : CommandKind} {ps : List Inline}
    {effect : Effect} (h : Invocation.Effects handle call c kind ps effect c')
    (ht : effect.output = .definition t) : call.scope.owner ∈ c'.references t := by
  cases h with
  | definition _ _ hd _ hhandle =>
    cases ht
    have hrecalls := hh _ _ _ _ hhandle
    exact (hrecalls.references _).subset (mem_references_addReference hd)
  | sharedBoolean _ hd =>
    cases ht
    obtain ⟨_, hd'⟩ := definition?_addReference hd t call.scope.owner
    exact mem_references_addReference hd'
  | @newBoolean _ key value =>
    cases ht
    have hnew := definition?_addDefinition c { key := some key, kind := .boolean value } none
      (c.addBoolean none key value).1
    rw [addBoolean, Context.addDefinition, if_pos rfl] at hnew
    obtain ⟨_, hd⟩ := definition?_addReference hnew (c.addBoolean none key value).1 call.scope.owner
    exact mem_references_addReference hd
  | value | lines | defaultLines | footnote | text => cases ht

/-- Whatever an executed command in a text stands for, the node of the text is recorded there, or
    that is given. -/
theorem used_law (scope : Scope) : Inline.CommandLaw handle scope (fun _ => True) (fun _ => True)
    Recalls fun c j => ∀ t, j.target? = some t →
      scope.owner ∈ c.references t ∨ given scope.owner t :=
  .of_targets (fun hr h => h.imp_left fun h => (hr.references _).subset h)
    fun _ _ _ heffects ht => Or.inl (mem_references_of_effects hh heffects ht)

end

/-- The node of a text is recorded with all definitions that commands in the text stand for and
    that are not given. -/
theorem Context.textLaw_used : TextLaw fun c x content =>
    ∀ j ∈ Inline.nestedList content.inlines, ∀ t, j.target? = some t →
      x ∈ c.references t ∨ given x t := by
  refine Inline.CommandLaw.textLaw (fun n x document => used_law (fun id _ _ _ h => ?handle) _)
    fun fonts tags h t ht => h t ?convert
  case handle => exact .of_extends (extends_handleCommands n id _ _ _ h)
  case convert => rwa [Inline.target?_remap] at ht

/-! ## Part references -/

namespace Context

/-- Every target of a part reference was there before. -/
def LeavesTargets (c c' : Context) : Prop :=
  ∀ x d', c'.definition? x = some d' → ∀ t, d'.kind.target? = some t →
    ∃ d, c.definition? x = some d ∧ d.kind.target? = some t

theorem composes_leavesTargets : Engine.Composes LeavesTargets where
  refl _ _ d hd t ht := ⟨d, hd, ht⟩
  trans h h' x d₂ hd₂ t ht₂ := by
    obtain ⟨d₁, hd₁, ht₁⟩ := h' x d₂ hd₂ t ht₂
    exact h x d₁ hd₁ t ht₁

namespace LeavesTargets

theorem of_definitions (h : c'.definitions = c.definitions) : LeavesTargets c c' := by
  intro x d hd t ht
  rw [definition?_of_definitions_eq h] at hd
  exact ⟨d, hd, ht⟩

theorem modifyDefinition (c : Context) {f : Definition → Definition}
    (hf : ∀ d, (f d).kind.target? = d.kind.target? ∨ (f d).kind.target? = none) :
    LeavesTargets c (c.modifyDefinition id f) := by
  intro x d' hd' t ht
  rcases of_definition?_modifyDefinition hd' with ⟨-, hd'⟩ | ⟨rfl, d, hd, rfl⟩
  · exact ⟨d', hd', ht⟩
  · rcases hf d with hsame | hnone
    · exact ⟨d, hd, hsame.symm.trans ht⟩
    · rw [hnone] at ht; cases ht

theorem addDefinition (c : Context) {d : Definition} (hd : d.kind.target? = none)
    (document : Option DocumentId) : LeavesTargets c (c.addDefinition d document).2 := by
  intro x d' hd' t ht
  rcases of_definition?_addDefinition hd' with hd' | ⟨-, rfl⟩
  · exact ⟨d', hd', ht⟩
  · rw [hd] at ht
    cases ht

theorem addChild (c : Context) (parent : DefinitionId) (key : Option String)
    {kind : DefinitionKind} (hkind : kind.target? = none) :
    LeavesTargets c (c.addChild parent key kind).2 := by
  unfold Context.addChild
  dsimp only
  have hadd : LeavesTargets c (c.addDefinition { key, parent := some parent, kind }
      ((c.definition? parent).bind Definition.document)).2 := .addDefinition c hkind _
  refine composes_leavesTargets.trans hadd ?_
  split
  · exact .modifyDefinition _ fun _ => Or.inr rfl
  · exact .of_definitions rfl
  · exact composes_leavesTargets.refl _

theorem setSourceText (c : Context) (id : DefinitionId) (source : String) :
    LeavesTargets c (c.setSourceText id source) := by
  unfold Context.setSourceText
  split
  case h_4 => exact .of_definitions rfl
  case h_5 => exact composes_leavesTargets.refl c
  all_goals exact .modifyDefinition c fun _ => Or.inr rfl

theorem modifyContent (c : Context) (id : DefinitionId) (f : Content → Content) :
    LeavesTargets c (c.modifyContent id f) := by
  rw [modifyContent_eq]
  exact .modifyDefinition c fun d => Or.inl (d.kind.target?_mapContents f)

theorem of_converts (h : Converts c c') : LeavesTargets c c' := by
  intro x d' hd' t ht
  obtain ⟨d, kind, hd, rfl, hk⟩ := h.of_definition? hd'
  refine ⟨d, hd, ?_⟩
  cases hk with
  | same => exact ht
  | fonts => rwa [DefinitionKind.target?_mapContents] at ht

end LeavesTargets

/-- What any command does to a context sets no target. -/
theorem permits_leavesTargets : Permits (fun _ => True) LeavesTargets where
  toComposes := composes_leavesTargets
  warn _ _ := .of_definitions rfl
  reference c _ _ := .modifyDefinition c fun _ => Or.inl rfl
  number _ c document := .of_definitions (c.definitions_modifyFootnotes document _)
  boolean _ c _ := .addDefinition c rfl none

end Context

/-- An edit sets no target if it adds no part reference that has one. -/
theorem Edit.leavesTargets {e : Edit} (he : ∀ d ∈ e.made?, d.kind.target? = none) (c : Context) :
    LeavesTargets c (e.apply c) := by
  cases e with
  | addSection parent key | addStanza parent key | addParagraph parent key
  | addPartReference parent key => exact .addChild c parent key rfl
  | addDefinition d document => exact .addDefinition c (he d rfl) document
  | addVersion document language font =>
    have hadd : LeavesTargets c (c.addDefinition
        { language := some language, font, kind := .section {} } (some document)).2 :=
      .addDefinition c rfl _
    exact composes_leavesTargets.trans hadd (.of_definitions rfl)
  | setSourceText id source => exact .setSourceText c id source
  | setLanguage | setFont | addReference => exact .modifyDefinition c fun _ => Or.inl rfl
  | addDocument | setAuthor | setCommands | setFonts | registerAnalyzer | setSettings =>
    exact .of_definitions rfl

namespace Context

/-- Every part reference is recorded with its target, unless that is given. -/
def RefersBack (given : DefinitionId → DefinitionId → Prop) (c : Context) : Prop :=
  ∀ x d, c.definition? x = some d → ∀ t, d.kind.target? = some t → x ∈ c.references t ∨ given x t

theorem RefersBack.of_leavesTargets (h : c.RefersBack given) (hl : LeavesTargets c c')
    (hr : Recalls c c') : c'.RefersBack given := by
  intro x d' hd' t ht
  obtain ⟨d, hd, ht⟩ := hl x d' hd' t ht
  exact (h x d hd t ht).imp_left fun hmem => (hr.references t).subset hmem

/-- A part reference gets a target that exists: it is recorded there at the same time. -/
theorem RefersBack.setTarget {target : DefinitionId} {d : Definition} (h : c.RefersBack given)
    (hd : c.definition? target = some d) :
    ((c.addReference target id).setTarget id target).RefersBack given := by
  obtain ⟨_, hused⟩ := definition?_addReference hd target id
  have hmem := mem_references_addReference hused
  have huse : (c.addReference target id).RefersBack given :=
    h.of_leavesTargets (permits_leavesTargets.reference c target id)
      (permits_recalls.reference c target id)
  rw [setTarget_eq]
  have hrecalls : Recalls (c.addReference target id)
      ((c.addReference target id).modifyDefinition id fun d =>
        { d with kind := d.kind.setTarget target }) :=
    .modifyDefinition _ (fun _ => rfl) (fun _ => rfl) fun _ => List.prefix_rfl
  intro x d' hd' t ht
  refine Or.imp_left (fun hmem => (hrecalls.references t).subset hmem) ?_
  obtain ⟨d₁, hd₁, rfl⟩ := definition?_modifyKind hd'
  by_cases he : id = x
  · subst he
    rw [if_pos rfl] at ht
    rw [DefinitionKind.eq_of_target?_setTarget ht]
    exact Or.inl hmem
  · rw [if_neg he] at ht
    exact huse x d₁ hd₁ t ht

/-- From a context where keys lead to definitions, and part references are recorded, this leads to
    another one. -/
def StaysReferred (given : DefinitionId → DefinitionId → Prop) (c c' : Context) : Prop :=
  c.IsIndexed ∧ c.RefersBack given → c'.IsIndexed ∧ c'.RefersBack given

theorem composes_staysReferred : Engine.Composes (StaysReferred given) :=
  ⟨fun _ h => h, fun h h' hc => h' (h hc)⟩

theorem permits_staysReferred : Permits (fun _ => True) (StaysReferred given) :=
  (permits_staysIndexed.and (permits_leavesTargets.and permits_recalls)).mono
    composes_staysReferred fun h hc => ⟨h.1 hc.1, hc.2.of_leavesTargets h.2.1 h.2.2⟩

theorem StaysReferred.atDepth (c : Context) (depth : Nat) :
    StaysReferred given c (c.atDepth depth) :=
  fun hc => ⟨hc.1.atDepth depth, hc.2⟩

end Context

/-- The command pass of a definition records part references with their targets, however it
    ends. -/
theorem staysReferred_handleCommands (n : Nat) (id : DefinitionId) :
    (Engine.handleCommands n id).Moves (StaysReferred given) := by
  refine Engine.handleCommands_moves composes_staysReferred
    (fun {c c₁} h hc => StaysReferred.atDepth c₁ _ (h (StaysReferred.atDepth c _ hc)))
    (fun {c id target d reference} _ _ _ hl hc => ?target)
    (fun n hh c id d content r c' hd _ h => ?content) n id
  case target =>
    obtain ⟨_, htarget, -⟩ := hc.1.exists_of_lookup? hl
    exact ⟨(hc.1.addReference _ _).setTarget _ _, hc.2.setTarget htarget⟩
  case content =>
    refine Engine.resolveContent_moves permits_staysReferred hh hd
      (fun {written tags l notes c₁} _ _ _ hmoves hc => ?_) h
    obtain ⟨hindexed, hrefers⟩ := hmoves hc
    have hroute := c₁.definitions_modifyFootnotes d.document fun list =>
      { list with routed := list.routed ++ notes }
    refine ⟨(hindexed.modifyFootnotes _ _).modifyContent _ _, ?_⟩
    refine hrefers.of_leavesTargets
      (composes_leavesTargets.trans (.of_definitions hroute) (.modifyContent _ _ _))
      (composes_recalls.trans (.of_definitions hroute) ?_)
    rw [modifyContent_eq]
    exact .modifyDefinition _ (fun _ => rfl) (fun _ => rfl) fun _ => List.prefix_rfl

/-! ## Completeness -/

/-- A document that the edit names is one of the context, and what a definition that is added by
    hand stands for already, by its text or as a part reference, is given. -/
def Edit.Gives (given : DefinitionId → DefinitionId → Prop) (c : Context) (e : Edit) : Prop :=
  e.FindsDocument c ∧ ∀ d ∈ e.made?, ∀ t ∈ d.kind.targets ++ d.kind.target?.toList,
    given ⟨c.definitions.size⟩ t

instance [∀ x t, Decidable (given x t)] (c : Context) (e : Edit) : Decidable (e.Gives given c) :=
  inferInstanceAs (Decidable (e.FindsDocument c ∧ ∀ d ∈ e.made?,
    ∀ t ∈ d.kind.targets ++ d.kind.target?.toList, given ⟨c.definitions.size⟩ t))

namespace Context

/-- An edit leaves part references recorded. -/
theorem RefersBack.edit {e : Edit} (h : c.RefersBack given) (he : e.Gives given c) :
    (e.apply c).RefersBack given := by
  have hrecalls := e.recalls c
  rcases hmade : e.made? with _ | d
  · exact h.of_leavesTargets (Edit.leavesTargets (by rw [hmade]; rintro _ ⟨⟩) c) hrecalls
  · have hgiven := he.2 d hmade
    rw [Edit.eq_addDefinition hmade] at hrecalls ⊢
    intro x d' hd' t ht
    rcases of_definition?_addDefinition hd' with hold | ⟨hx, rfl⟩
    · exact (h x d' hold t ht).imp_left fun hmem => (hrecalls.references t).subset hmem
    · obtain rfl : x = ⟨c.definitions.size⟩ := congrArg DefinitionId.mk hx
      exact Or.inr (hgiven t (List.mem_append_right _ (Option.mem_toList.2 ht)))

/-- Part references are recorded with their targets in every context that edits and calls lead
    to. -/
theorem Reached.refersBack {P : Context → Call → Except Error Unit → Prop}
    (h : c.Reached (Edit.Gives given) P) : c.RefersBack given := by
  induction h with
  | new settings => rintro x d ⟨⟩
  | edit _ he ih => exact ih.edit he
  | call hc _ hends ih =>
    have hindexed : IsIndexed _ := Reached.isIndexed (fun _ _ he => he.1) hc
    refine (hends.moves composes_staysReferred staysReferred_handleCommands
      (fun n id c r c' h hc => ?_) ⟨hindexed, ih⟩).2
    have hconverts := converts_handleFonts n id c r c' h
    exact ⟨staysIndexed_handleFonts n id c r c' h hc.1,
      hc.2.of_leavesTargets (.of_converts hconverts) (.of_converts hconverts)⟩

/-- What commands in the text of a definition stand for is what its text leads to. -/
theorem textLaw_used_of_gives {e : Edit} (he : e.Gives given c) :
    ∀ d ∈ e.made?, ∀ content ∈ d.kind.contents, ∀ j ∈ Inline.nestedList content.inlines,
      ∀ t, j.target? = some t → ⟨c.definitions.size⟩ ∈ (e.apply c).references t ∨
        given ⟨c.definitions.size⟩ t := by
  intro d hd content hcontent j hj t ht
  have htarget : t ∈ Inline.targets content.inlines := Inline.mem_targets.2 ⟨j, hj, ht⟩
  exact Or.inr (he.2 d hd t
    (List.mem_append_left _ (DefinitionKind.mem_targets.2 ⟨content, hcontent, htarget⟩)))

end Context

/-- **References are complete.**  After any edits and calls, whatever a command anywhere in a text
    stands for, in a parameter, an output or a footnote, has the node of the text among its
    references, and the target of a part reference has the part reference there.  The only ones
    that may be missing are those `given` with definitions that were added by hand, such as
    copies of others, and stood for something already: nobody records them.  No edit and no
    call, however it ends, takes an entry from a list of references: it grows at its end. -/
theorem references_complete (h : c.ReachedBy (Edit.Gives given)) :
    (∀ x d, c.definition? x = some d → ∀ content ∈ d.kind.contents,
      ∀ j ∈ Inline.nestedList content.inlines, ∀ t, j.target? = some t →
        x ∈ c.references t ∨ given x t) ∧
    (∀ p d, c.definition? p = some d → ∀ t, d.kind.target? = some t →
      p ∈ c.references t ∨ given p t) ∧
    (∀ (e : Edit) t, c.references t <+: (e.apply c).references t) ∧
    ∀ (call : Call) r c', call.Ends c r c' → ∀ t, c.references t <+: c'.references t :=
  ⟨textLaw_used.of_reached (fun he => ⟨he.1, textLaw_used_of_gives he⟩) h, Reached.refersBack h,
    fun e => (e.recalls c).references, fun _ _ _ hends => hends.recalls.references⟩

/-- A stanza inserts another one in a footnote, a part reference stands for the same one, and a
    third one fails after it has inserted it: all three are recorded, and a new text of the first
    of them changes nothing in that. -/
theorem references_complete_of_failure :
    ∃ c : Context, c.ReachedBy (Edit.Gives fun _ _ => False) ∧ c.references ⟨1⟩ = [⟨2⟩, ⟨3⟩, ⟨4⟩] ∧
      (∃ d ∈ c.definition? ⟨2⟩, ∃ content ∈ d.kind.contents,
        ∃ j ∈ Inline.nestedList content.inlines, j.target? = some ⟨1⟩ ∧ ⟨2⟩ ∈ c.references ⟨1⟩) ∧
      (∃ d ∈ c.definition? ⟨3⟩, d.kind.target? = some ⟨1⟩ ∧ ⟨3⟩ ∈ c.references ⟨1⟩) ∧
      c.references ⟨1⟩ <+: ((Edit.setSourceText ⟨2⟩ "y").apply c).references ⟨1⟩ := by
  let edits := [Edit.addDocument "d" "D", .addVersion ⟨0⟩ (.ofKnown .coptic) none,
    .addStanza ⟨0⟩ (some "a") "x", .addStanza ⟨0⟩ none "\\footnote\x7b\\def\x7ba\x7d\x7d",
    .addPartReference ⟨0⟩ none "a", .addStanza ⟨0⟩ none "\\def\x7ba\x7d\\def\x7bb\x7d"]
  let c := edits.foldl Edit.apply (.new {})
  let c' := (Call.commands ⟨0⟩).run 4 c
  obtain ⟨e, hcall⟩ : ∃ e, (Call.commands ⟨0⟩).Ends c (.error e) c' :=
    Call.ends_run_error (by decide +kernel)
  have hc' : c'.ReachedBy (Edit.Gives fun _ _ => False) :=
    .call ((Reached.new {}).edits (by decide +kernel)) trivial hcall
  obtain ⟨d, hd, content, hcontent, j, hj, ht⟩ :
      ∃ d ∈ c'.definition? ⟨2⟩, ∃ content ∈ d.kind.contents,
        ∃ j ∈ Inline.nestedList content.inlines, j.target? = some ⟨1⟩ := by
    decide +kernel
  obtain ⟨p, hp, htarget⟩ : ∃ p ∈ c'.definition? ⟨3⟩, p.kind.target? = some ⟨1⟩ := by
    decide +kernel
  obtain ⟨htexts, hparts, hedits, -⟩ := references_complete hc'
  exact ⟨c', hc', by decide +kernel,
    ⟨d, hd, content, hcontent, j, hj, ht,
      (htexts _ d hd content hcontent j hj _ ht).resolve_right id⟩,
    ⟨p, hp, htarget, (hparts _ p hp _ htarget).resolve_right id⟩, hedits _ _⟩

/-- A stanza inserts another one, and a part reference stands for the same one.  Copies of both,
    added to no document, do so too, and are recorded nowhere. -/
theorem not_references_complete_of_copy :
    ∃ c : Context, c.IsReachable ∧ c.references ⟨1⟩ = [⟨2⟩, ⟨3⟩] ∧
      (∃ d, c.definition? ⟨4⟩ = some d ∧ ∃ content ∈ d.kind.contents,
        ∃ j ∈ Inline.nestedList content.inlines, j.target? = some ⟨1⟩ ∧
          ⟨4⟩ ∉ c.references ⟨1⟩) ∧
      ∃ d, c.definition? ⟨5⟩ = some d ∧ d.kind.target? = some ⟨1⟩ ∧ ⟨5⟩ ∉ c.references ⟨1⟩ := by
  let edits := [Edit.addDocument "d" "D", .addVersion ⟨0⟩ (.ofKnown .coptic) none,
    .addStanza ⟨0⟩ (some "a") "x", .addStanza ⟨0⟩ none "\\def\x7ba\x7d",
    .addPartReference ⟨0⟩ none "a"]
  obtain ⟨c, hc, hsize, hreferences, stanza, hstanza, part, hpart, hused, htarget⟩ :
      ∃ c : Context, c.IsReachable ∧ c.definitions.size = 4 ∧ c.references ⟨1⟩ = [⟨2⟩, ⟨3⟩] ∧
        ∃ stanza ∈ c.definition? ⟨2⟩, ∃ part ∈ c.definition? ⟨3⟩,
          (∃ content ∈ stanza.kind.contents,
            ∃ j ∈ Inline.nestedList content.inlines, j.target? = some ⟨1⟩) ∧
          part.kind.target? = some ⟨1⟩ := by
    have hedits : (edits.foldl Edit.apply (.new {})).IsReachable :=
      (IsReachable.new {}).edits (by decide +kernel)
    exact ⟨(Call.commands ⟨0⟩).run 4 (edits.foldl Edit.apply (.new {})),
      .call hedits (Call.ends_run (by decide +kernel)), by decide +kernel⟩
  let c₁ := (c.addDefinition stanza none).2
  let c₂ := (c₁.addDefinition part none).2
  have hc₁ : c₁.IsReachable := .copy hc hc hstanza (List.Subset.refl _) trivial
  have hc₂ : c₂.IsReachable := .copy hc₁ hc hpart (List.Subset.refl _) trivial
  have hsize₁ : c₁.definitions.size = 5 := by
    rw [definitions_addDefinition, Array.size_push, hsize]
  have hold : ∀ {x d}, c.definition? x = some d → c₂.definition? x = some d := fun hd =>
    definition?_addDefinition_of_some (definition?_addDefinition_of_some hd)
  have hsame : c₂.references ⟨1⟩ = [⟨2⟩, ⟨3⟩] := by
    rcases hd : c.definition? ⟨1⟩ with _ | d
    · rw [references, hd] at hreferences; cases hreferences
    · rw [references, hold hd, ← hd]; exact hreferences
  obtain ⟨content, hcontent, j, hj, ht⟩ := hused
  refine ⟨c₂, hc₂, hsame, ⟨{ stanza with document := none }, ?_, content, hcontent, j, hj, ht, ?_⟩,
    ⟨{ part with document := none }, ?_, htarget, ?_⟩⟩
  · refine definition?_addDefinition_of_some ?_
    rw [definition?_addDefinition, if_pos hsize.symm]
  · rw [hsame]; decide
  · rw [definition?_addDefinition, if_pos hsize₁.symm]
  · rw [hsame]; decide

end Rubric
